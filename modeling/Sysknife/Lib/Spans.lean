import Sysknife.Lib.Slices

/-!
# Spans of a text

A span is a pair of byte offsets: it covers the offsets from the first one up to the second. Spans
that were collected one by one may overlap; `merge` joins those that overlap or touch, once they
are in order. `mask` puts a marker for each block of characters at marked offsets.

* `covers_merge`: joining spans changes nothing about what they cover.
* `apart_merge`: between two of the spans that are left there is a gap.
* `mask_span`: masking what spans with gaps between them cover, one span at a time.
-/

namespace Spans

open Slices

abbrev Span := ℕ × ℕ

/-- An offset is in one of the spans. -/
def Covers (spans : List Span) (n : ℕ) : Prop := ∃ r ∈ spans, r.1 ≤ n ∧ n < r.2

theorem not_covers_nil (n : ℕ) : ¬ Covers [] n := by
  rintro ⟨r, hr, -⟩
  exact List.not_mem_nil hr

theorem covers_cons {r : Span} {spans : List Span} {n : ℕ} :
    Covers (r :: spans) n ↔ r.1 ≤ n ∧ n < r.2 ∨ Covers spans n := by
  simp [Covers]

/-! ### Joining spans -/

/-- Join what overlaps or touches, the span in hand first. -/
def mergeInto (a : Span) : List Span → List Span
  | [] => [a]
  | b :: spans =>
    if b.1 ≤ a.2 then mergeInto (a.1, max a.2 b.2) spans else a :: mergeInto b spans

def merge : List Span → List Span
  | [] => []
  | a :: spans => mergeInto a spans

/-- Spans in the order of their starts. -/
def Ordered (spans : List Span) : Prop := spans.Pairwise fun a b => a.1 ≤ b.1

/-- Nonempty spans in order, with a gap between any two. -/
def Apart (spans : List Span) : Prop :=
  (spans.Pairwise fun a b => a.2 < b.1) ∧ ∀ r ∈ spans, r.1 < r.2

section Merge

variable {a b : Span} {spans : List Span}

/-- The span in hand may grow. -/
theorem Ordered.grow (h : Ordered (a :: b :: spans)) {e : ℕ} : Ordered ((a.1, e) :: spans) := by
  obtain ⟨ha, hb⟩ := List.pairwise_cons.mp h
  obtain ⟨-, hspans⟩ := List.pairwise_cons.mp hb
  exact List.pairwise_cons.mpr ⟨fun r hr => ha r (List.mem_cons_of_mem b hr), hspans⟩

theorem covers_mergeInto (h : Ordered (a :: spans)) {n : ℕ} :
    Covers (mergeInto a spans) n ↔ Covers (a :: spans) n := by
  induction spans generalizing a with
  | nil => rw [mergeInto]
  | cons b spans ih =>
    have hle : a.1 ≤ b.1 := (List.pairwise_cons.mp h).1 b List.mem_cons_self
    rw [mergeInto]
    split_ifs with hjoin
    · rw [ih h.grow, covers_cons, covers_cons, covers_cons, ← or_assoc]
      refine or_congr_left ?_
      simp only
      omega
    · rw [covers_cons, ih h.of_cons, ← covers_cons]

/-- Every end of a joined span is an end of one that was joined. -/
theorem forall_mergeInto {P Q : ℕ → Prop} (h : ∀ r ∈ a :: spans, P r.1 ∧ Q r.2) :
    ∀ r ∈ mergeInto a spans, P r.1 ∧ Q r.2 := by
  induction spans generalizing a with
  | nil => exact h
  | cons b spans ih =>
    rw [List.forall_mem_cons, List.forall_mem_cons] at h
    obtain ⟨ha, hb, hspans⟩ := h
    rw [mergeInto]
    split_ifs
    · refine ih (List.forall_mem_cons.mpr ⟨⟨ha.1, ?_⟩, hspans⟩)
      rcases max_choice a.2 b.2 with hmax | hmax <;> rw [hmax]
      · exact ha.2
      · exact hb.2
    · exact List.forall_mem_cons.mpr ⟨ha, ih (List.forall_mem_cons.mpr ⟨hb, hspans⟩)⟩

theorem apart_mergeInto (h : Ordered (a :: spans)) (hne : ∀ r ∈ a :: spans, r.1 < r.2) :
    Apart (mergeInto a spans) := by
  induction spans generalizing a with
  | nil => exact ⟨List.pairwise_singleton _ _, hne⟩
  | cons b spans ih =>
    obtain ⟨ha, hrest⟩ := List.forall_mem_cons.mp hne
    obtain ⟨hb, hspans⟩ := List.forall_mem_cons.mp hrest
    rw [mergeInto]
    split_ifs with hjoin
    · have hgrown : a.1 < max a.2 b.2 := lt_max_of_lt_left ha
      exact ih h.grow (List.forall_mem_cons.mpr ⟨hgrown, hspans⟩)
    · obtain ⟨hpairwise, hnonempty⟩ := ih h.of_cons hrest
      -- what is left starts no earlier than `b`, behind the gap
      have hstarts : ∀ r ∈ b :: spans, b.1 ≤ r.1 ∧ True :=
        List.forall_mem_cons.mpr
          ⟨⟨le_rfl, trivial⟩, fun r hr => ⟨(List.pairwise_cons.mp h.of_cons).1 r hr, trivial⟩⟩
      have hgap : ∀ r ∈ mergeInto b spans, a.2 < r.1 := fun r hr => by
        have hstart := (@forall_mergeInto b spans (b.1 ≤ ·) (fun _ => True) hstarts r hr).1
        omega
      exact ⟨List.pairwise_cons.mpr ⟨hgap, hpairwise⟩, List.forall_mem_cons.mpr ⟨ha, hnonempty⟩⟩

/-- Joining spans changes nothing about what they cover. -/
theorem covers_merge (h : Ordered spans) {n : ℕ} : Covers (merge spans) n ↔ Covers spans n := by
  cases spans with
  | nil => rfl
  | cons a spans => exact covers_mergeInto h

theorem forall_merge {P Q : ℕ → Prop} (h : ∀ r ∈ spans, P r.1 ∧ Q r.2) :
    ∀ r ∈ merge spans, P r.1 ∧ Q r.2 := by
  cases spans with
  | nil => exact h
  | cons a spans => exact forall_mergeInto h

/-- Between two of the spans that are left there is a gap. -/
theorem apart_merge (h : Ordered spans) (hne : ∀ r ∈ spans, r.1 < r.2) :
    Apart (merge spans) := by
  cases spans with
  | nil => exact ⟨.nil, hne⟩
  | cons a spans => exact apart_mergeInto h hne

end Merge

/-! ### Masking -/

section Mask

variable {p q : ℕ → Prop} {marker : List Char} {n : ℕ}

open Classical in
/-- A text from an offset on, with a marker for each block of characters at offsets with `p`. A
block may have begun before. -/
noncomputable def maskFrom (p : ℕ → Prop) (marker : List Char) :
    ℕ → Bool → List Char → List Char
  | _, _, [] => []
  | n, inside, c :: s =>
    if p n then (if inside then [] else marker) ++ maskFrom p marker (n + c.utf8Size) true s
    else c :: maskFrom p marker (n + c.utf8Size) false s

/-- A text with a marker for each block of characters at offsets with `p`. -/
noncomputable def mask (p : ℕ → Prop) (marker s : List Char) : List Char :=
  maskFrom p marker 0 false s

/-- Only the offsets from the first one on matter. -/
theorem maskFrom_congr (h : ∀ k, n ≤ k → (p k ↔ q k)) (inside : Bool) (s : List Char) :
    maskFrom p marker n inside s = maskFrom q marker n inside s := by
  induction s generalizing n inside with
  | nil => rfl
  | cons c s ih =>
    have hrest : ∀ k, n + c.utf8Size ≤ k → (p k ↔ q k) := fun k hk => h k (by omega)
    have hhere := h n le_rfl
    rw [maskFrom, maskFrom, ih hrest, ih hrest]
    by_cases hp : p n
    · rw [if_pos hp, if_pos (hhere.mp hp)]
    · rw [if_neg hp, if_neg fun hq => hp (hhere.mpr hq)]

/-- No block goes on over an offset without `p`. -/
theorem maskFrom_of_not (h : ¬ p n) (inside : Bool) (s : List Char) :
    maskFrom p marker n inside s = maskFrom p marker n false s := by
  cases s with
  | nil => rfl
  | cons c s => rw [maskFrom, maskFrom, if_neg h, if_neg h]

/-- Text outside all blocks is kept. -/
theorem maskFrom_outside {a : List Char} (h : ∀ k, n ≤ k → k < n + size a → ¬ p k)
    (s : List Char) :
    maskFrom p marker n false (a ++ s) = a ++ maskFrom p marker (n + size a) false s := by
  induction a generalizing n with
  | nil => rfl
  | cons c a ih =>
    have hc := Char.utf8Size_pos c
    have hhead : ¬ p n := h n le_rfl (by rw [size_cons]; omega)
    have hrest : ∀ k, n + c.utf8Size ≤ k → k < n + c.utf8Size + size a → ¬ p k :=
      fun k hk hlt => h k (by omega) (by rw [size_cons]; omega)
    rw [List.cons_append, maskFrom, if_neg hhead, ih hrest, size_cons, Nat.add_assoc]
    rfl

/-- Text within a block is dropped. -/
theorem maskFrom_inside {m : List Char} (h : ∀ k, n ≤ k → k < n + size m → p k)
    (s : List Char) :
    maskFrom p marker n true (m ++ s) = maskFrom p marker (n + size m) true s := by
  induction m generalizing n with
  | nil => rfl
  | cons c m ih =>
    have hc := Char.utf8Size_pos c
    have hhead : p n := h n le_rfl (by rw [size_cons]; omega)
    have hrest : ∀ k, n + c.utf8Size ≤ k → k < n + c.utf8Size + size m → p k :=
      fun k hk hlt => h k (by omega) (by rw [size_cons]; omega)
    rw [List.cons_append, maskFrom, if_pos hhead, ih hrest, size_cons, Nat.add_assoc]
    rfl

/-- A block is one marker. -/
theorem maskFrom_block {m : List Char} (hm : m ≠ []) (h : ∀ k, n ≤ k → k < n + size m → p k)
    (hend : ¬ p (n + size m)) (s : List Char) :
    maskFrom p marker n false (m ++ s) = marker ++ maskFrom p marker (n + size m) false s := by
  obtain ⟨c, m, rfl⟩ := List.exists_cons_of_ne_nil hm
  have hpos := size_pos hm
  have hhead : p n := h n le_rfl (by omega)
  have hopen : maskFrom p marker n true (c :: m ++ s) =
      maskFrom p marker (n + size (c :: m)) false s := by
    rw [maskFrom_inside h, maskFrom_of_not hend]
  rw [List.cons_append, maskFrom, if_pos hhead] at hopen ⊢
  exact congrArg (marker ++ ·) hopen

theorem maskFrom_nil_covers (s : List Char) : maskFrom (Covers []) marker n false s = s := by
  have houtside := @maskFrom_outside (Covers []) marker n s (fun k _ _ => not_covers_nil k) []
  rwa [List.append_nil, maskFrom, List.append_nil] at houtside

/-- Masking what spans with gaps between them cover, the first one first. -/
theorem mask_span {a m : List Char} {e : ℕ} {spans : List Span} (hm : m ≠ [])
    (hspans : Apart ((n + size a, e) :: spans)) (he : n + size a + size m = e) (s : List Char) :
    maskFrom (Covers ((n + size a, e) :: spans)) marker n false (a ++ (m ++ s)) =
      a ++ (marker ++ maskFrom (Covers spans) marker e false s) := by
  subst he
  have hgap : ∀ r ∈ spans, n + size a + size m < r.1 := (List.pairwise_cons.mp hspans.1).1
  have hlater : ∀ k, k ≤ n + size a + size m → ¬ Covers spans k := by
    rintro k hk ⟨r, hr, hstart, -⟩
    have hr := hgap r hr
    omega
  have houtside : ∀ k, n ≤ k → k < n + size a →
      ¬ Covers ((n + size a, n + size a + size m) :: spans) k := by
    intro k _ hlt
    rw [covers_cons, not_or]
    exact ⟨by omega, hlater k (by omega)⟩
  have hend : ¬ Covers ((n + size a, n + size a + size m) :: spans) (n + size a + size m) := by
    rw [covers_cons, not_or]
    exact ⟨by omega, hlater _ le_rfl⟩
  rw [maskFrom_outside houtside,
    maskFrom_block hm (fun k hk hlt => covers_cons.mpr (.inl ⟨hk, hlt⟩)) hend]
  congr 2
  refine maskFrom_congr (fun k hk => ?_) false s
  rw [covers_cons, or_iff_right]
  omega

end Mask

end Spans
