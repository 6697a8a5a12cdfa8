import Mathlib.Data.List.Infix

/-!
# Marked words in a text

A **marked** word opens with a mark that does not come again in it, as a tag opens with an angle
bracket. Its occurrences cannot overlap, and an edit of the text that writes marked words of its
own makes no new ones.

* `occursOnce_append`: a word that occurs neither before nor after a place occurs only there.
* `absent_replaceAll`: replacing a marked word leaves no occurrence of it, or of any other marked
  word that was absent.
* `absent_collapse`: deleting repeated separators joins no word together.
* `replaceEach_closed`, `collapseFrom_closed`: a property of texts that one edit keeps is kept by
  all.
-/

namespace Marks

variable {α : Type}

/-- The word `m :: v` is marked. -/
def Marked (q : List α) : Prop := ∃ m v, q = m :: v ∧ m ∉ v

theorem Marked.cons {m : α} {v : List α} (h : m ∉ v) : Marked (m :: v) := ⟨m, v, rfl, h⟩

/-- The word `q` occurs in a text once, between `front` and `back`. -/
def OccursOnce (q text front back : List α) : Prop :=
  ∀ pre post, text = pre ++ (q ++ post) ↔ pre = front ∧ post = back

/-- An occurrence of a marked word does not overlap another one. -/
theorem Marked.no_overlap {q d x y : List α} (hq : Marked q) (h : q ++ x = d ++ (q ++ y)) :
    d = [] ∨ q <+: d := by
  obtain ⟨m, v, rfl, hv⟩ := hq
  rcases List.append_eq_append_iff.mp h with ⟨e, rfl, -⟩ | ⟨e, heq, hrest⟩
  · exact Or.inr ⟨e, rfl⟩
  · cases d with
    | nil => exact Or.inl rfl
    | cons a d =>
      cases e with
      | nil => exact Or.inr ⟨[], by simpa using heq⟩
      | cons b e =>
        obtain ⟨rfl, hv'⟩ := List.cons.inj heq
        obtain ⟨rfl, -⟩ := List.cons.inj hrest
        exact absurd (by rw [hv']; simp) hv

/-- A word that occurs neither before nor after a place occurs only there. -/
theorem occursOnce_append {q front back : List α} (hq : Marked q) (hfront : ¬q <:+: front)
    (hback : ¬q <:+: back) : OccursOnce q (front ++ (q ++ back)) front back := by
  intro pre post
  constructor
  · intro h
    rcases List.append_eq_append_iff.mp h with ⟨d, rfl, hd⟩ | ⟨d, rfl, hd⟩
    · rcases hq.no_overlap hd with rfl | ⟨e, rfl⟩
      · exact ⟨by simp, by simpa using hd.symm⟩
      · rw [List.append_assoc] at hd
        have hpost := List.append_cancel_left hd
        exact absurd (hpost ▸ List.infix_append' e q post) hback
    · rcases hq.no_overlap hd with rfl | hd
      · exact ⟨by simp, by simpa using hd⟩
      · exact absurd (hd.isInfix.trans (List.suffix_append pre d).isInfix) hfront
  · rintro ⟨rfl, rfl⟩
    rfl

/-- A word without the letter `n` that begins before an `n` ends before it. -/
theorem isPrefix_of_not_mem {q a b : List α} {n : α} (hn : n ∉ q) (h : q <+: a ++ n :: b) :
    q <+: a := by
  obtain ⟨t, ht⟩ := h
  rcases List.append_eq_append_iff.mp ht with ⟨d, rfl, -⟩ | ⟨d, rfl, hd⟩
  · exact ⟨d, rfl⟩
  · cases d with
    | nil => simp
    | cons c d =>
      obtain ⟨rfl, -⟩ := List.cons.inj hd
      exact absurd (by simp) hn

/-- A word stands on one side of a letter that is not in it. -/
theorem absent_append_sep {q a b : List α} {n : α} (hq : q ≠ []) (hn : n ∉ q)
    (ha : ¬q <:+: a) (hb : ¬q <:+: b) : ¬q <:+: a ++ n :: b := by
  induction a with
  | nil =>
    rw [List.nil_append, List.infix_cons_iff]
    rintro (h | h)
    · rw [List.prefix_nil.mp (isPrefix_of_not_mem (a := []) hn h)] at hq
      exact hq rfl
    · exact hb h
  | cons c a ih =>
    rw [List.cons_append, List.infix_cons_iff]
    rintro (h | h)
    · exact ha (isPrefix_of_not_mem (a := c :: a) hn h).isInfix
    · exact ih (fun h => ha (h.trans (List.suffix_cons c a).isInfix)) h

/-- A marked word before its own mark stands on one side of it. -/
theorem absent_append_mark {m : α} {v a b : List α} (hv : m ∉ v) (ha : ¬m :: v <:+: a)
    (hb : ¬m :: v <:+: m :: b) : ¬m :: v <:+: a ++ m :: b := by
  induction a with
  | nil => exact hb
  | cons c a ih =>
    rw [List.cons_append, List.infix_cons_iff]
    rintro (h | h)
    · obtain ⟨rfl, htail⟩ := List.cons_prefix_cons.mp h
      have hline : m :: v <+: m :: a :=
        List.cons_prefix_cons.mpr ⟨rfl, isPrefix_of_not_mem hv htail⟩
      exact ha hline.isInfix
    · exact ih (fun h => ha (h.trans (List.suffix_cons c a).isInfix)) h

/-- A word whose mark is not in `w` does not begin within it. -/
theorem absent_append_of_not_mem {m : α} {v w b : List α} (hw : m ∉ w) (hb : ¬m :: v <:+: b) :
    ¬m :: v <:+: w ++ b := by
  induction w with
  | nil => exact hb
  | cons c w ih =>
    rw [List.cons_append, List.infix_cons_iff]
    rintro (h | h)
    · obtain ⟨rfl, -⟩ := List.cons_prefix_cons.mp h
      exact hw (by simp)
    · exact ih (fun hm => hw (List.mem_cons_of_mem c hm)) h

/-- Words that differ at a place both have do not begin one another. -/
theorem not_isPrefix_of_differ {v w : List α} (h : ∃ p ∈ v.zip w, p.1 ≠ p.2) (t : List α) :
    ¬v <+: w ++ t := by
  induction v generalizing w with
  | nil =>
    obtain ⟨p, hp, -⟩ := h
    cases hp
  | cons a v ih =>
    cases w with
    | nil =>
      obtain ⟨p, hp, -⟩ := h
      cases hp
    | cons b w =>
      rintro hin
      obtain ⟨rfl, htail⟩ := List.cons_prefix_cons.mp hin
      obtain ⟨p, hp, hne⟩ := h
      rcases List.mem_cons.mp hp with rfl | hp
      · exact hne rfl
      · exact ih ⟨p, hp, hne⟩ htail

/-- A marked word does not come with another word of the same mark that is put into the text. -/
theorem absent_splice {m : α} {v w a b : List α} (hv : m ∉ v) (hw : m ∉ w)
    (hdiffer : ∃ p ∈ v.zip w, p.1 ≠ p.2) (ha : ¬m :: v <:+: a) (hb : ¬m :: v <:+: b) :
    ¬m :: v <:+: a ++ (m :: w ++ b) := by
  refine absent_append_mark hv ha ?_
  rw [List.infix_cons_iff]
  rintro (h | h)
  · exact not_isPrefix_of_differ hdiffer b (List.cons_prefix_cons.mp h).2
  · exact absent_append_of_not_mem hw hb h

/-- A word of the mark is not within another one that differs from it. -/
theorem absent_of_differ {m : α} {v w : List α} (hw : m ∉ w)
    (hdiffer : ∃ p ∈ v.zip w, p.1 ≠ p.2) : ¬m :: v <:+: m :: w := by
  rw [List.infix_cons_iff]
  rintro (h | h)
  · refine not_isPrefix_of_differ hdiffer [] ?_
    rw [List.append_nil]
    exact (List.cons_prefix_cons.mp h).2
  · exact hw (h.subset (by simp))

/-! ### Replacing a word -/

/-- Replace each occurrence of `q` by `r`, from the left; `k` letters of one are still to skip. -/
def replaceFrom [DecidableEq α] (q r : List α) : ℕ → List α → List α
  | _, [] => []
  | k + 1, _ :: s => replaceFrom q r k s
  | 0, c :: s =>
    if q <+: c :: s then r ++ replaceFrom q r (q.length - 1) s else c :: replaceFrom q r 0 s

/-- `s.replace(q, r)`, for a nonempty `q` -/
def replaceAll [DecidableEq α] (q r s : List α) : List α := replaceFrom q r 0 s

section Replace

variable [DecidableEq α]

/-- A text without the word stays as it is. -/
theorem replaceAll_of_absent {q r s : List α} (h : ¬q <:+: s) : replaceAll q r s = s := by
  rw [replaceAll]
  induction s with
  | nil => rfl
  | cons c s ih =>
    rw [replaceFrom, if_neg (fun hq => h hq.isInfix),
      ih (fun hs => h (hs.trans (List.suffix_cons c s).isInfix))]

/-- What begins the new text without the mark of the new words begins the old text. -/
theorem isPrefix_of_replaceFrom {m : α} {w q u s : List α} {k : ℕ} (hu : m ∉ u)
    (h : u <+: replaceFrom q (m :: w) k s) : u <+: s.drop k := by
  induction s generalizing u k with
  | nil => simpa [replaceFrom] using h
  | cons c s ih =>
    cases k with
    | succ k => exact ih hu h
    | zero =>
      rw [replaceFrom] at h
      split_ifs at h
      · have hnil := List.prefix_nil.mp (isPrefix_of_not_mem (a := []) hu h)
        rw [hnil]
        exact List.nil_prefix
      · cases u with
        | nil => exact List.nil_prefix
        | cons d u =>
          obtain ⟨rfl, htail⟩ := List.cons_prefix_cons.mp h
          have hrest := ih (fun hm => hu (List.mem_cons_of_mem d hm)) htail
          exact List.cons_prefix_cons.mpr ⟨rfl, hrest⟩

theorem absent_replaceFrom {m : α} {v w q s : List α} {k : ℕ} (hv : m ∉ v) (hw : m ∉ w)
    (hdiffer : ∃ p ∈ v.zip w, p.1 ≠ p.2) (h : m :: v = q ∨ ¬m :: v <:+: s) :
    ¬m :: v <:+: replaceFrom q (m :: w) k s := by
  induction s generalizing k with
  | nil =>
    rw [replaceFrom]
    exact fun hnil => List.cons_ne_nil _ _ (List.infix_nil.mp hnil)
  | cons c s ih =>
    have htail : m :: v = q ∨ ¬m :: v <:+: s :=
      h.imp id fun hs hin => hs (hin.trans (List.suffix_cons c s).isInfix)
    cases k with
    | succ k => exact ih htail
    | zero =>
      rw [replaceFrom]
      split_ifs with hq
      · exact absent_splice (a := []) hv hw hdiffer
          (fun hnil => List.cons_ne_nil _ _ (List.infix_nil.mp hnil)) (ih htail)
      · rw [List.infix_cons_iff]
        rintro (hin | hin)
        · obtain ⟨rfl, hbegin⟩ := List.cons_prefix_cons.mp hin
          have hold : m :: v <+: m :: s :=
            List.cons_prefix_cons.mpr ⟨rfl, isPrefix_of_replaceFrom hv hbegin⟩
          rcases h with rfl | h
          · exact hq hold
          · exact h hold.isInfix
        · exact ih htail hin

/-- After replacing `q` the text has neither `q` nor any marked word it did not have before. -/
theorem absent_replaceAll {m : α} {v w q s : List α} (hv : m ∉ v) (hw : m ∉ w)
    (hdiffer : ∃ p ∈ v.zip w, p.1 ≠ p.2) (h : m :: v = q ∨ ¬m :: v <:+: s) :
    ¬m :: v <:+: replaceAll q (m :: w) s :=
  absent_replaceFrom hv hw hdiffer h

theorem mem_replaceFrom {q r s : List α} {k : ℕ} {c : α} (h : c ∈ replaceFrom q r k s) :
    c ∈ s ∨ c ∈ r := by
  induction s generalizing k with
  | nil => exact Or.inl h
  | cons d s ih =>
    cases k with
    | succ k => exact (ih h).imp_left (List.mem_cons_of_mem d)
    | zero =>
      rw [replaceFrom] at h
      split_ifs at h
      · rcases List.mem_append.mp h with h | h
        · exact Or.inr h
        · exact (ih h).imp_left (List.mem_cons_of_mem d)
      · rcases List.mem_cons.mp h with rfl | h
        · exact Or.inl (by simp)
        · exact (ih h).imp_left (List.mem_cons_of_mem d)

/-- Replace each of several words in turn. -/
def replaceEach (edits : List (List α × List α)) (s : List α) : List α :=
  edits.foldl (fun s edit => replaceAll edit.1 edit.2 s) s

theorem absent_replaceEach {m : α} {v s : List α} {edits : List (List α × List α)} (hv : m ∉ v)
    (hedits : ∀ edit ∈ edits, ∃ w, edit.2 = m :: w ∧ m ∉ w ∧ ∃ p ∈ v.zip w, p.1 ≠ p.2)
    (h : (∃ edit ∈ edits, edit.1 = m :: v) ∨ ¬m :: v <:+: s) :
    ¬m :: v <:+: replaceEach edits s := by
  induction edits generalizing s with
  | nil =>
    rcases h with ⟨edit, hedit, -⟩ | h
    · cases hedit
    · exact h
  | cons edit edits ih =>
    obtain ⟨w, hw, hmark, hdiffer⟩ := hedits edit (by simp)
    refine ih (fun edit hedit => hedits edit (List.mem_cons_of_mem _ hedit)) ?_
    show _ ∨ ¬m :: v <:+: replaceAll edit.1 edit.2 s
    rw [hw]
    rcases h with ⟨other, hother, hq⟩ | h
    · rcases List.mem_cons.mp hother with rfl | hother
      · exact Or.inr (absent_replaceAll hv hmark hdiffer (Or.inl hq.symm))
      · exact Or.inl ⟨other, hother, hq⟩
    · exact Or.inr (absent_replaceAll hv hmark hdiffer (Or.inr h))

theorem replaceEach_of_absent {s : List α} {edits : List (List α × List α)}
    (h : ∀ edit ∈ edits, ¬edit.1 <:+: s) : replaceEach edits s = s := by
  induction edits with
  | nil => rfl
  | cons edit edits ih =>
    have hstep : replaceAll edit.1 edit.2 s = s := replaceAll_of_absent (h edit (by simp))
    rw [replaceEach, List.foldl_cons, hstep]
    exact ih fun edit hedit => h edit (List.mem_cons_of_mem _ hedit)

theorem mem_replaceEach {s : List α} {edits : List (List α × List α)} {c : α}
    (h : c ∈ replaceEach edits s) : c ∈ s ∨ ∃ edit ∈ edits, c ∈ edit.2 := by
  induction edits generalizing s with
  | nil => exact Or.inl h
  | cons edit edits ih =>
    rcases ih h with h | ⟨other, hother, hc⟩
    · exact (mem_replaceFrom h).imp_right fun h => ⟨edit, by simp, h⟩
    · exact Or.inr ⟨other, List.mem_cons_of_mem _ hother, hc⟩

/-- A class of texts that one replacement stays in is one that all stay in. -/
theorem replaceFrom_closed {C : List α → Prop} {q r s : List α} {k : ℕ} (hq : q ≠ [])
    (hstep : ∀ x z, C (x ++ (q ++ z)) → C (x ++ (r ++ z))) (x : List α) (h : C (x ++ s.drop k)) :
    C (x ++ replaceFrom q r k s) := by
  induction s generalizing k x with
  | nil => simpa [replaceFrom] using h
  | cons c s ih =>
    cases k with
    | succ k => exact ih x h
    | zero =>
      rw [replaceFrom]
      split_ifs with hbegin
      · obtain ⟨z, hz⟩ := hbegin
        rw [List.drop_zero, ← hz] at h
        have hdrop : s.drop (q.length - 1) = z := by
          obtain ⟨d, v, rfl⟩ := List.exists_cons_of_ne_nil hq
          obtain rfl : v ++ z = s := (List.cons.inj hz).2
          rw [List.length_cons, Nat.add_sub_cancel, List.drop_left]
        have hnext := ih (k := q.length - 1) (x ++ r)
        rw [hdrop, List.append_assoc, List.append_assoc] at hnext
        exact hnext (hstep x z h)
      · have hnext := ih (k := 0) (x ++ [c])
        rw [List.drop_zero, List.append_assoc, List.append_assoc] at hnext
        exact hnext h

theorem replaceEach_closed {C : List α → Prop} {edits : List (List α × List α)} {s : List α}
    (hedits : ∀ edit ∈ edits, edit.1 ≠ [] ∧
      ∀ x z, C (x ++ (edit.1 ++ z)) → C (x ++ (edit.2 ++ z)))
    (h : C s) : C (replaceEach edits s) := by
  induction edits generalizing s with
  | nil => exact h
  | cons edit edits ih =>
    obtain ⟨hne, hstep⟩ := hedits edit (by simp)
    refine ih (fun edit hedit => hedits edit (List.mem_cons_of_mem _ hedit)) ?_
    exact replaceFrom_closed (k := 0) hne hstep [] h

end Replace

/-! ### Collapsing runs of a separator -/

section Collapse

variable [DecidableEq α] (n : α)

/-- Keep at most two separators in a row, of which `k` have passed. -/
def collapseFrom : ℕ → List α → List α
  | _, [] => []
  | k, c :: s =>
    if c = n then if k < 2 then c :: collapseFrom (k + 1) s else collapseFrom (k + 1) s
    else c :: collapseFrom 0 s

variable {n}

theorem collapseFrom_sublist (k : ℕ) (s : List α) : (collapseFrom n k s).Sublist s := by
  induction s generalizing k with
  | nil => exact List.Sublist.slnil
  | cons c s ih =>
    rw [collapseFrom]
    split_ifs
    · exact (ih _).cons_cons c
    · exact (ih _).cons c
    · exact (ih _).cons_cons c

/-- Without a separator there is nothing to collapse. -/
theorem collapseFrom_of_notMem {s : List α} (h : n ∉ s) (k : ℕ) : collapseFrom n k s = s := by
  induction s generalizing k with
  | nil => rfl
  | cons c s ih =>
    obtain ⟨hc, hs⟩ := List.ne_and_not_mem_of_not_mem_cons h
    rw [collapseFrom, if_neg (Ne.symm hc), ih hs]

/-- From the second separator on their number does not matter. -/
theorem collapseFrom_of_two_le {k : ℕ} (hk : 2 ≤ k) (s : List α) :
    collapseFrom n k s = collapseFrom n 2 s := by
  induction s generalizing k with
  | nil => rfl
  | cons c s ih =>
    have hk' : ¬k < 2 := by omega
    by_cases hc : c = n
    · rw [collapseFrom, collapseFrom, if_pos hc, if_pos hc, if_neg hk', if_neg (Nat.lt_irrefl 2),
        ih (k := k + 1) (by omega), ih (k := 2 + 1) (by omega)]
    · rw [collapseFrom, collapseFrom, if_neg hc, if_neg hc]

/-- Collapsing twice is collapsing once. -/
theorem collapseFrom_collapseFrom (k : ℕ) (s : List α) :
    collapseFrom n k (collapseFrom n k s) = collapseFrom n k s := by
  induction s generalizing k with
  | nil => rfl
  | cons c s ih =>
    by_cases hc : c = n
    · by_cases hk : k < 2
      · simp only [collapseFrom, if_pos hc, if_pos hk, ih]
      · have htwo : 2 ≤ k := by omega
        simp only [collapseFrom, if_pos hc, if_neg hk]
        rw [collapseFrom_of_two_le (k := k + 1) (by omega), collapseFrom_of_two_le htwo, ih]
    · simp only [collapseFrom, if_neg hc, ih]

/-- What begins the new text without a separator begins the old text. -/
theorem isPrefix_of_collapseFrom {u s : List α} (hu : n ∉ u) (h : u <+: collapseFrom n 0 s) :
    u <+: s := by
  induction s generalizing u with
  | nil => exact h
  | cons c s ih =>
    cases u with
    | nil => exact List.nil_prefix
    | cons d u =>
      by_cases hc : c = n
      · rw [collapseFrom, if_pos hc, if_pos (by omega)] at h
        obtain ⟨rfl, -⟩ := List.cons_prefix_cons.mp h
        exact absurd (by rw [hc]; simp) hu
      · rw [collapseFrom, if_neg hc] at h
        obtain ⟨rfl, htail⟩ := List.cons_prefix_cons.mp h
        have hrest := ih (fun hm => hu (List.mem_cons_of_mem d hm)) htail
        exact List.cons_prefix_cons.mpr ⟨rfl, hrest⟩

/-- Deleting repeated separators joins no word together. -/
theorem absent_collapse {q s : List α} {k : ℕ} (hq : q ≠ []) (hn : n ∉ q) (h : ¬q <:+: s) :
    ¬q <:+: collapseFrom n k s := by
  induction s generalizing k with
  | nil => exact h
  | cons c s ih =>
    have htail : ¬q <:+: s := fun hin => h (hin.trans (List.suffix_cons c s).isInfix)
    rw [collapseFrom]
    split_ifs with hc hk
    · rw [hc]
      exact absent_append_sep (a := []) hq hn (fun hnil => hq (List.infix_nil.mp hnil)) (ih htail)
    · exact ih htail
    · rw [List.infix_cons_iff]
      rintro (hin | hin)
      · cases q with
        | nil => exact hq rfl
        | cons d q =>
          obtain ⟨rfl, hbegin⟩ := List.cons_prefix_cons.mp hin
          have hrest := isPrefix_of_collapseFrom (fun hm => hn (List.mem_cons_of_mem d hm)) hbegin
          exact h (List.cons_prefix_cons.mpr ⟨rfl, hrest⟩).isInfix
      · exact ih htail hin

/-- A class of texts that deleting a repeated separator stays in is one that collapsing stays in. -/
theorem collapseFrom_closed {C : List α → Prop}
    (hstep : ∀ x z, C (x ++ n :: n :: z) → C (x ++ n :: z)) {s x : List α} {k : ℕ}
    (hk : 0 < k → ∃ y, x = y ++ [n]) (h : C (x ++ s)) : C (x ++ collapseFrom n k s) := by
  induction s generalizing k x with
  | nil => exact h
  | cons c s ih =>
    rw [collapseFrom]
    split_ifs with hc hlt
    · have hnext := ih (x := x ++ [c]) (k := k + 1) (fun _ => ⟨x, by rw [hc]⟩)
      rw [List.append_assoc, List.append_assoc] at hnext
      exact hnext h
    · obtain ⟨y, rfl⟩ := hk (by omega)
      refine ih (fun _ => ⟨y, rfl⟩) ?_
      rw [hc, List.append_assoc] at h
      rw [List.append_assoc]
      exact hstep y s h
    · have hnext := ih (x := x ++ [c]) (k := 0) (fun hpos => absurd hpos (Nat.lt_irrefl 0))
      rw [List.append_assoc, List.append_assoc] at hnext
      exact hnext h

end Collapse

end Marks
