import Mathlib.Data.List.Forall2

/-!
# Reading printed text back

A printer is **unambiguous** if a printed item can be read off the front of a text: the item and
the rest of the text are both determined, whatever follows the item. This file has the rules for
the ways in which a printer is put together.

* `token_read`: a token of one class of symbols, ended by a symbol of another class.
* `flatMap_read`: a word for each symbol, ended by a closing mark that opens no word.
* `intercalate_read`: items with a separator in between, ended by a closing mark that opens no item.
-/

universe u v

namespace Printing

variable {α : Type u} {β : Type v}

/-- A text opens with a symbol other than the given one. -/
def OpensOther (close : β) (text : List β) : Prop := ∃ c rest, text = c :: rest ∧ c ≠ close

theorem OpensOther.append {close : β} {text : List β} (h : OpensOther close text) (r : List β) :
    OpensOther close (text ++ r) := by
  obtain ⟨c, rest, rfl, hc⟩ := h
  exact ⟨c, rest ++ r, rfl, hc⟩

theorem OpensOther.ne {close : β} {text : List β} (h : OpensOther close text) (r : List β) :
    text ≠ close :: r := by
  obtain ⟨c, rest, rfl, hc⟩ := h
  exact fun heq => hc (List.cons.inj heq).1

/-- A token ends where the text leaves its class of symbols. -/
theorem token_read {p : β → Prop} {t u r s : List β} (ht : ∀ c ∈ t, p c) (hu : ∀ c ∈ u, p c)
    (hr : ∀ c ∈ r.head?, ¬ p c) (hs : ∀ c ∈ s.head?, ¬ p c) (h : t ++ r = u ++ s) :
    t = u ∧ r = s := by
  induction t generalizing u with
  | nil =>
    cases u with
    | nil => exact ⟨rfl, h⟩
    | cons c u =>
      have hhead : c ∈ r.head? := by simp [show r = c :: (u ++ s) from h]
      exact absurd (hu c List.mem_cons_self) (hr c hhead)
  | cons a t ih =>
    cases u with
    | nil =>
      have hhead : a ∈ s.head? := by simp [show s = a :: (t ++ r) from h.symm]
      exact absurd (ht a List.mem_cons_self) (hs a hhead)
    | cons c u =>
      obtain ⟨rfl, htail⟩ := List.cons.inj h
      obtain ⟨rfl, hrest⟩ := ih (fun c hc => ht c (List.mem_cons_of_mem a hc))
        (fun c hc => hu c (List.mem_cons_of_mem a hc)) htail
      exact ⟨rfl, hrest⟩

/-- Words that can be told apart at the front of a text, up to the closing mark. -/
theorem flatMap_read {word : α → List β} {close : β} (hopens : ∀ a, OpensOther close (word a))
    (hword : ∀ a b r s, word a ++ r = word b ++ s → a = b ∧ r = s) {xs ys : List α} {r s : List β}
    (h : xs.flatMap word ++ close :: r = ys.flatMap word ++ close :: s) : xs = ys ∧ r = s := by
  induction xs generalizing ys with
  | nil =>
    cases ys with
    | nil => exact ⟨rfl, (List.cons.inj h).2⟩
    | cons b ys =>
      rw [List.flatMap_cons, List.append_assoc] at h
      exact absurd h.symm (((hopens b).append _).ne r)
  | cons a xs ih =>
    cases ys with
    | nil =>
      rw [List.flatMap_cons, List.append_assoc] at h
      exact absurd h (((hopens a).append _).ne s)
    | cons b ys =>
      rw [List.flatMap_cons, List.flatMap_cons, List.append_assoc, List.append_assoc] at h
      obtain ⟨rfl, hrest⟩ := hword a b _ _ h
      obtain ⟨rfl, rfl⟩ := ih hrest
      exact ⟨rfl, rfl⟩

section Separated

variable {p : α → List β} {R : α → α → Prop} {Stops : List β → Prop} {sep close : β}

/-- What follows the first item: a separator before each further item, then the closing mark. -/
def separatedTail (p : α → List β) (sep close : β) : List α → List β
  | [] => [close]
  | x :: xs => sep :: (p x ++ separatedTail p sep close xs)

theorem intercalate_cons_append (x : α) (xs : List α) (r : List β) :
    [sep].intercalate ((x :: xs).map p) ++ close :: r =
      p x ++ (separatedTail p sep close xs ++ r) := by
  induction xs generalizing x with
  | nil => simp [separatedTail]
  | cons y ys ih =>
    rw [List.map_cons, List.map_cons, List.intercalate_cons_cons, ← List.map_cons,
      List.append_assoc, List.append_assoc, ih y]
    simp [separatedTail]

/-- An item is followed by a separator or by the closing mark. -/
theorem stops_separatedTail (hsep : ∀ r, Stops (sep :: r)) (hclose : ∀ r, Stops (close :: r))
    (xs : List α) (r : List β) : Stops (separatedTail p sep close xs ++ r) := by
  cases xs with
  | nil => exact hclose r
  | cons x xs => exact hsep _

theorem separatedTail_read (hne : sep ≠ close) (hsep : ∀ r, Stops (sep :: r))
    (hclose : ∀ r, Stops (close :: r)) {xs ys : List α}
    (hread : ∀ x ∈ xs, ∀ y ∈ ys, ∀ r s, Stops r → Stops s → p x ++ r = p y ++ s → R x y ∧ r = s)
    {r s : List β} (h : separatedTail p sep close xs ++ r = separatedTail p sep close ys ++ s) :
    List.Forall₂ R xs ys ∧ r = s := by
  induction xs generalizing ys with
  | nil =>
    cases ys with
    | nil => exact ⟨.nil, (List.cons.inj h).2⟩
    | cons y ys => exact absurd (List.cons.inj h).1.symm hne
  | cons x xs ih =>
    cases ys with
    | nil => exact absurd (List.cons.inj h).1 hne
    | cons y ys =>
      simp only [separatedTail, List.cons_append, List.append_assoc, List.cons.injEq,
        true_and] at h
      obtain ⟨hxy, hrest⟩ := hread x List.mem_cons_self y List.mem_cons_self _ _
        (stops_separatedTail hsep hclose xs r) (stops_separatedTail hsep hclose ys s) h
      obtain ⟨hall, rfl⟩ := ih (fun x' hx' y' hy' => hread x' (List.mem_cons_of_mem x hx') y'
        (List.mem_cons_of_mem y hy')) hrest
      exact ⟨.cons hxy hall, rfl⟩

/-- **Separated items.** A list of items is read off the front of a text if each item can be,
given that a separator or the closing mark follows it. -/
theorem intercalate_read (hne : sep ≠ close) (hsep : ∀ r, Stops (sep :: r))
    (hclose : ∀ r, Stops (close :: r)) {xs ys : List α} (hxs : ∀ x ∈ xs, OpensOther close (p x))
    (hys : ∀ y ∈ ys, OpensOther close (p y))
    (hread : ∀ x ∈ xs, ∀ y ∈ ys, ∀ r s, Stops r → Stops s → p x ++ r = p y ++ s → R x y ∧ r = s)
    {r s : List β} (h : [sep].intercalate (xs.map p) ++ close :: r =
      [sep].intercalate (ys.map p) ++ close :: s) :
    List.Forall₂ R xs ys ∧ r = s := by
  cases xs with
  | nil =>
    cases ys with
    | nil => exact ⟨.nil, (List.cons.inj h).2⟩
    | cons y ys =>
      rw [intercalate_cons_append] at h
      exact absurd h.symm (((hys y List.mem_cons_self).append _).ne r)
  | cons x xs =>
    cases ys with
    | nil =>
      rw [intercalate_cons_append] at h
      exact absurd h (((hxs x List.mem_cons_self).append _).ne s)
    | cons y ys =>
      rw [intercalate_cons_append, intercalate_cons_append] at h
      obtain ⟨hxy, hrest⟩ := hread x List.mem_cons_self y List.mem_cons_self _ _
        (stops_separatedTail hsep hclose xs r) (stops_separatedTail hsep hclose ys s) h
      obtain ⟨hall, rfl⟩ := separatedTail_read hne hsep hclose (fun x' hx' y' hy' =>
        hread x' (List.mem_cons_of_mem x hx') y' (List.mem_cons_of_mem y hy')) hrest
      exact ⟨.cons hxy hall, rfl⟩

end Separated

end Printing
