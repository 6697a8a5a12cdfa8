import Mathlib.Data.List.Basic

/-!
# Delimited records over an escaped alphabet

A **byte-stuffing code** (`Escaping`) fixes two delimiters and a prefix code whose words avoid
both. A field is written `tag sep value term`, with only the value escaped, and a record is
the concatenation of its fields. Nothing frames the record itself, so the question is what a
record followed by an arbitrary tail determines:

* `record_append_split`: if the tail on one side is free of the terminator, the other side's
  fields are an initial segment of that side's fields, and its tail absorbs the rest. This is
  exact: an unframed tail that *may* contain terminators can pose as further fields.
* `record_append_inj`: if both tails are free of the terminator, fields and tail are both
  determined.
-/

universe u

/-- A byte-stuffing code: a tag/value separator, a field terminator, and a prefix code whose
words contain neither. -/
structure Escaping (α : Type u) where
  /-- Stands between the tag and the value of a field. -/
  sep : α
  /-- Ends a field. -/
  term : α
  /-- The code word of one symbol. -/
  esc : α → List α
  esc_ne_nil : ∀ a, esc a ≠ []
  /-- No code word begins another one. -/
  eq_of_esc_prefix : ∀ a b, esc a <+: esc b → a = b
  sep_notMem_esc : ∀ a, sep ∉ esc a
  term_notMem_esc : ∀ a, term ∉ esc a

namespace Escaping

variable {α : Type u} (E : Escaping α)

/-- The escaped spelling of a value. -/
def escape (value : List α) : List α := value.flatMap E.esc

/-- One field: the tag as it stands, then the escaped value. -/
def field (tag value : List α) : List α := tag ++ E.sep :: (E.escape value ++ [E.term])

/-- The fields of a record, one after the other. -/
def record (fields : List (List α × List α)) : List α :=
  fields.flatMap fun f => E.field f.1 f.2

/-- A tag that cannot be confused with the framing. -/
def PlainTag (tag : List α) : Prop := E.sep ∉ tag ∧ E.term ∉ tag

@[simp] theorem record_nil : E.record [] = [] := rfl

@[simp] theorem record_cons (f : List α × List α) (fs : List (List α × List α)) :
    E.record (f :: fs) = E.field f.1 f.2 ++ E.record fs := rfl

@[simp] theorem record_append (fs gs : List (List α × List α)) :
    E.record (fs ++ gs) = E.record fs ++ E.record gs := by
  simp [record]

theorem term_notMem_escape (value : List α) : E.term ∉ E.escape value := by
  simp only [escape, List.mem_flatMap, not_exists, not_and]
  exact fun a _ => E.term_notMem_esc a

/-- Two code words that open the same string are the same. -/
private theorem esc_append_inj {a b : α} {r s : List α} (h : E.esc a ++ r = E.esc b ++ s) :
    a = b := by
  have ha : E.esc a <+: E.esc b ++ s := h ▸ List.prefix_append _ _
  rcases List.prefix_or_prefix_of_prefix ha (List.prefix_append _ _) with hab | hba
  · exact E.eq_of_esc_prefix a b hab
  · exact (E.eq_of_esc_prefix b a hba).symm

/-- Escaping loses nothing. -/
theorem escape_injective {v w : List α} (h : E.escape v = E.escape w) : v = w := by
  induction v generalizing w with
  | nil =>
    cases w with
    | nil => rfl
    | cons b w => simp [escape, E.esc_ne_nil] at h
  | cons a v ih =>
    cases w with
    | nil => simp [escape, E.esc_ne_nil] at h
    | cons b w =>
      simp only [escape, List.flatMap_cons] at h
      obtain rfl := E.esc_append_inj h
      rw [ih (List.append_cancel_left h)]

/-- Cutting at the first occurrence of a delimiter. -/
theorem append_cons_cancel {a : α} {x y r s : List α} (hx : a ∉ x) (hy : a ∉ y)
    (h : x ++ a :: r = y ++ a :: s) : x = y ∧ r = s := by
  induction x generalizing y with
  | nil =>
    cases y with
    | nil => simpa using h
    | cons c y =>
      obtain ⟨rfl, -⟩ := List.cons.inj h
      exact absurd List.mem_cons_self hy
  | cons b x ih =>
    cases y with
    | nil =>
      obtain ⟨rfl, -⟩ := List.cons.inj h
      exact absurd List.mem_cons_self hx
    | cons c y =>
      simp only [List.cons_append, List.cons.injEq, List.mem_cons, not_or] at h hx hy
      obtain ⟨rfl, h⟩ := h
      obtain ⟨rfl, rfl⟩ := ih hx.2 hy.2 h
      exact ⟨rfl, rfl⟩

/-- A field followed by anything determines its tag, its value and what follows. -/
theorem field_append_inj {t t' v v' r r' : List α} (ht : E.PlainTag t) (ht' : E.PlainTag t')
    (h : E.field t v ++ r = E.field t' v' ++ r') : t = t' ∧ v = v' ∧ r = r' := by
  simp only [field, List.append_assoc, List.cons_append, List.nil_append] at h
  obtain ⟨rfl, hrest⟩ := append_cons_cancel ht.1 ht'.1 h
  obtain ⟨hv, rfl⟩ :=
    append_cons_cancel (E.term_notMem_escape v) (E.term_notMem_escape v') hrest
  exact ⟨rfl, E.escape_injective hv, rfl⟩

theorem term_mem_field (tag value : List α) : E.term ∈ E.field tag value := by
  simp [field]

/-- **An unframed tail can only extend the record.** If the tail `q` is free of the
terminator, then `fs` is an initial segment of `gs` and the tail `p` carries the remaining
fields in front of `q`. -/
theorem record_append_split {fs gs : List (List α × List α)} {p q : List α}
    (hfs : ∀ f ∈ fs, E.PlainTag f.1) (hgs : ∀ g ∈ gs, E.PlainTag g.1) (hq : E.term ∉ q)
    (h : E.record fs ++ p = E.record gs ++ q) :
    ∃ hs, gs = fs ++ hs ∧ p = E.record hs ++ q := by
  induction fs generalizing gs with
  | nil => exact ⟨gs, rfl, h⟩
  | cons f fs ih =>
    cases gs with
    | nil =>
      -- the terminator of `f` would have to lie in `q`
      refine absurd ?_ hq
      have hmem : E.term ∈ E.record (f :: fs) ++ p := by simp [E.term_mem_field]
      rw [h] at hmem
      simpa using hmem
    | cons g gs =>
      simp only [record_cons, List.append_assoc] at h
      obtain ⟨ht, hv, hrest⟩ := E.field_append_inj (hfs f List.mem_cons_self)
        (hgs g List.mem_cons_self) h
      obtain ⟨hs, rfl, hp⟩ := ih (fun x hx => hfs x (List.mem_cons_of_mem _ hx))
        (fun x hx => hgs x (List.mem_cons_of_mem _ hx)) hrest
      exact ⟨hs, by rw [Prod.ext ht hv, List.cons_append], hp⟩

/-- **Injectivity.** With both tails free of the terminator, the fields and the tail are
determined. -/
theorem record_append_inj {fs gs : List (List α × List α)} {p q : List α}
    (hfs : ∀ f ∈ fs, E.PlainTag f.1) (hgs : ∀ g ∈ gs, E.PlainTag g.1)
    (hp : E.term ∉ p) (hq : E.term ∉ q) (h : E.record fs ++ p = E.record gs ++ q) :
    fs = gs ∧ p = q := by
  obtain ⟨hs, rfl, rfl⟩ := E.record_append_split hfs hgs hq h
  cases hs with
  | nil => simp
  | cons f hs => simp [E.term_mem_field] at hp

end Escaping
