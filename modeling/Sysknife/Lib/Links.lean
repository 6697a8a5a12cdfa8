import Mathlib.Data.List.Induction
import Mathlib.Data.List.Infix

/-!
# Numbered chains

Records that are numbered from one and name the hash of the record before them, over an arbitrary
type of hashes. `Linked` says that a list is such a chain; `Linked.concat` when it stays one if
a record is added whose maker has read *some* record of the list, possibly long ago: a number
that is not taken belongs to the end of the list.
-/

/-- A record of a chain, reduced to its number, the hash it names and its own. -/
structure Link (H : Type) where
  seq : ℕ
  prev : H
  hash : H
  deriving DecidableEq

namespace Link

variable {H : Type} (genesis : H) {ls ls' : List (Link H)} {l p : Link H}

/-- The hash the next record has to name. -/
def tip (ls : List (Link H)) : H := (ls.getLast?.map hash).getD genesis

/-- The records are numbered from one without a gap, and each names the one before it. -/
def Linked (ls : List (Link H)) : Prop :=
  ∀ i l, ls[i]? = some l → l.seq = i + 1 ∧ l.prev = tip genesis (ls.take i)

variable {genesis}

theorem linked_nil : Linked genesis ([] : List (Link H)) := by
  intro i l h
  simp at h

theorem linked_concat_iff : Linked genesis (ls ++ [l]) ↔
    Linked genesis ls ∧ l.seq = ls.length + 1 ∧ l.prev = tip genesis ls := by
  constructor
  · intro h
    refine ⟨fun i l' hl' => ?_, ?_⟩
    · have hi : i < ls.length := (List.getElem?_eq_some_iff.mp hl').1
      have hspec := h i l' (by rw [List.getElem?_append_left hi, hl'])
      rwa [List.take_append_of_le_length (by omega)] at hspec
    · simpa using h ls.length l (by simp)
  · rintro ⟨h, hseq, hprev⟩ i l' hl'
    rcases Nat.lt_trichotomy i ls.length with hi | rfl | hi
    · rw [List.getElem?_append_left hi] at hl'
      rw [List.take_append_of_le_length (by omega)]
      exact h i l' hl'
    · simp at hl'
      subst hl'
      simpa using ⟨hseq, hprev⟩
    · rw [List.getElem?_eq_none (by simp; omega)] at hl'
      cases hl'

theorem Linked.of_append (h : Linked genesis (ls ++ ls')) : Linked genesis ls := by
  induction ls' using List.reverseRecOn with
  | nil => simpa using h
  | append_singleton ls' l ih =>
    rw [← List.append_assoc, linked_concat_iff] at h
    exact ih h.1

/-- The number of a record is its place. -/
theorem Linked.seq_le (h : Linked genesis ls) (hl : l ∈ ls) : 1 ≤ l.seq ∧ l.seq ≤ ls.length := by
  obtain ⟨i, hi⟩ := List.mem_iff_getElem?.mp hl
  have hlt : i < ls.length := (List.getElem?_eq_some_iff.mp hi).1
  have hseq := (h i l hi).1
  omega

/-- Every number up to the length is taken. -/
theorem Linked.exists_seq (h : Linked genesis ls) {n : ℕ} (hn : n < ls.length) :
    ∃ l ∈ ls, l.seq = n + 1 := by
  have hget : ls[n]? = some ls[n] := List.getElem?_eq_getElem hn
  exact ⟨ls[n], List.getElem_mem hn, (h n ls[n] hget).1⟩

/-- The record with the highest number is the last one. -/
theorem Linked.tip_eq (h : Linked genesis ls) (hl : l ∈ ls) (hseq : l.seq = ls.length) :
    tip genesis ls = l.hash := by
  obtain ⟨i, hi⟩ := List.mem_iff_getElem?.mp hl
  have hi' := (h i l hi).1
  have hlast : ls.getLast? = some l := by
    rw [List.getLast?_eq_getElem?, ← hi]
    congr 1
    omega
  rw [tip, hlast, Option.map_some, Option.getD_some]

/-- **A free number continues the chain**, whichever record of it was read before. -/
theorem Linked.concat (h : Linked genesis ls) {prev : Option (Link H)}
    (hprev : ∀ p, prev = some p → p ∈ ls) (hseq : l.seq = (prev.map seq).getD 0 + 1)
    (hhash : l.prev = (prev.map hash).getD genesis) (hfree : ∀ l' ∈ ls, l'.seq ≠ l.seq) :
    Linked genesis (ls ++ [l]) := by
  have hlength : ls.length < l.seq := by
    by_contra hle
    obtain ⟨l', hl', hl'seq⟩ := h.exists_seq (n := l.seq - 1) (by omega)
    exact hfree l' hl' (by omega)
  cases prev with
  | none =>
    rw [Option.map_none, Option.getD_none] at hseq hhash
    obtain rfl : ls = [] := List.length_eq_zero_iff.mp (by omega)
    exact linked_concat_iff.mpr ⟨h, by simpa using hseq, by simpa [tip] using hhash⟩
  | some p =>
    rw [Option.map_some, Option.getD_some] at hseq hhash
    have hp := hprev p rfl
    have hle := (h.seq_le hp).2
    have hlast : p.seq = ls.length := by omega
    exact linked_concat_iff.mpr ⟨h, by omega, by rw [h.tip_eq hp hlast, hhash]⟩

/-- Two continuations of one chain begin with the same number. -/
theorem Linked.seq_head {l' : Link H} {ms ms' : List (Link H)} (h : Linked genesis (ls ++ l :: ms))
    (h' : Linked genesis (ls ++ l' :: ms')) : l.seq = l'.seq := by
  rw [(h ls.length l (by simp)).1, (h' ls.length l' (by simp)).1]

end Link
