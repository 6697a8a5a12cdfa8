import Mathlib.Data.Int.Notation
import Mathlib.Data.List.Nodup
import Mathlib.Data.List.Basic

/-!
# Keyed tables

A database table as a list of rows with a primary key: `Table.lookup` selects by key,
`Table.updateWhere` and `Table.deleteWhere` are the conditional statements that report how
many rows they touched. While the key is unique (`Table.UniqueKey`), a statement whose
condition pins the key touches at most the row under it, and its row count says whether that
row met the condition (`lookup_of_count_pos`).

`Table.selectNewest` lists the rows that meet a condition, newest first and up to a limit
(`isNewest_selectNewest`).
-/

universe u v

namespace Table

variable {α : Type u} {κ : Type v} [DecidableEq κ] (key : α → κ)

/-- `SELECT … WHERE key = k` -/
def lookup (k : κ) (rows : List α) : Option α := rows.find? fun r => decide (key r = k)

omit [DecidableEq κ] in
/-- `UPDATE … SET … WHERE p`, with the number of rows changed. -/
def updateWhere (p : α → Bool) (f : α → α) (rows : List α) : ℕ × List α :=
  (rows.countP p, rows.map fun r => if p r then f r else r)

omit [DecidableEq κ] in
/-- `DELETE … WHERE p`, with the number of rows removed. -/
def deleteWhere (p : α → Bool) (rows : List α) : ℕ × List α :=
  (rows.countP p, rows.filter fun r => !p r)

/-- The key is a primary key. -/
def UniqueKey (rows : List α) : Prop := (rows.map key).Nodup

variable {key} {rows : List α} {k : κ} {r : α} {p : α → Bool} {f : α → α}

theorem key_of_lookup (h : lookup key k rows = some r) : key r = k := by
  simpa using List.find?_some h

theorem mem_of_lookup (h : lookup key k rows = some r) : r ∈ rows := List.mem_of_find?_eq_some h

theorem lookup_eq_none : lookup key k rows = none ↔ ∀ r ∈ rows, key r ≠ k := by
  simp [lookup]

theorem lookup_append (rows rows' : List α) (k : κ) :
    lookup key k (rows ++ rows') = (lookup key k rows).or (lookup key k rows') := by
  simp [lookup, List.find?_append]

/-- With a unique key, the row under a key is any row that has it. -/
theorem lookup_of_mem (hkey : UniqueKey key rows) (hr : r ∈ rows) (hk : key r = k) :
    lookup key k rows = some r := by
  cases h : lookup key k rows with
  | none => exact absurd hk (lookup_eq_none.mp h r hr)
  | some r' =>
    have hkeys : key r' = key r := (key_of_lookup h).trans hk.symm
    rw [List.inj_on_of_nodup_map hkey (mem_of_lookup h) hr hkeys]

/-- A positive row count of a statement that pins the key exhibits the row under it. -/
theorem lookup_of_count_pos (hkey : UniqueKey key rows) (hp : ∀ r, p r = true → key r = k)
    (hcount : 0 < rows.countP p) : ∃ r, lookup key k rows = some r ∧ p r = true := by
  obtain ⟨r, hr, hpr⟩ := List.countP_pos_iff.mp hcount
  exact ⟨r, lookup_of_mem hkey hr (hp r hpr), hpr⟩

/-- A query that pins the key answers at most the row under it. -/
theorem filter_of_pinned (hkey : UniqueKey key rows) (hp : ∀ r, p r = true → key r = k) :
    rows.filter p = ((lookup key k rows).filter p).toList := by
  cases h : lookup key k rows with
  | none =>
    rw [Option.filter_none, Option.toList_none, List.filter_eq_nil_iff]
    intro r hr hpr
    exact lookup_eq_none.mp h r hr (hp r hpr)
  | some r =>
    obtain ⟨pre, post, rfl⟩ := List.append_of_mem (mem_of_lookup h)
    have hother : ∀ r' ∈ pre ++ post, p r' = false := by
      intro r' hr'
      by_contra hne
      have hkr' : key r' = key r := (hp r' (by simpa using hne)).trans (key_of_lookup h).symm
      have hnodup : (key r :: (pre ++ post).map key).Nodup := by
        have hperm : (pre ++ r :: post).Perm (r :: (pre ++ post)) := List.perm_middle
        simpa using (hperm.map key).nodup hkey
      exact (List.nodup_cons.mp hnodup).1 (hkr' ▸ List.mem_map_of_mem hr')
    have hpre : pre.filter p = [] :=
      List.filter_eq_nil_iff.mpr fun x hx => by simp [hother x (by simp [hx])]
    have hpost : post.filter p = [] :=
      List.filter_eq_nil_iff.mpr fun x hx => by simp [hother x (by simp [hx])]
    rw [List.filter_append, hpre, List.filter_cons, hpost, Option.filter_some]
    split_ifs <;> rfl

/-! ### Updates -/

omit [DecidableEq κ] in
/-- A statement that touched no row changed nothing. -/
theorem updateWhere_of_count_zero (h : (updateWhere p f rows).1 = 0) :
    (updateWhere p f rows).2 = rows := by
  have hp : ∀ r ∈ rows, p r = false := by
    simpa [updateWhere] using h
  simp only [updateWhere]
  rw [List.map_congr_left (g := id) fun r hr => by simp [hp r hr], List.map_id]

theorem lookup_updateWhere (hf : ∀ r, key (f r) = key r) (k : κ) :
    lookup key k (updateWhere p f rows).2 =
      (lookup key k rows).map fun r => if p r then f r else r := by
  have hkey : ∀ r, key (if p r then f r else r) = key r := by
    intro r
    split_ifs
    · exact hf r
    · rfl
  simp only [lookup, updateWhere, List.find?_map]
  congr 2
  funext r
  simp [hkey]

omit [DecidableEq κ] in
theorem uniqueKey_updateWhere (hf : ∀ r, key (f r) = key r) (h : UniqueKey key rows) :
    UniqueKey key (updateWhere p f rows).2 := by
  have hmap : (updateWhere p f rows).2.map key = rows.map key := by
    simp only [updateWhere, List.map_map]
    refine List.map_congr_left fun r _ => ?_
    simp only [Function.comp]
    split_ifs
    · exact hf r
    · rfl
  rw [UniqueKey, hmap]
  exact h

/-! ### Deletions -/

omit [DecidableEq κ] in
theorem deleteWhere_of_count_zero (h : (deleteWhere p rows).1 = 0) :
    (deleteWhere p rows).2 = rows := by
  have hp : ∀ r ∈ rows, p r = false := by
    simpa [deleteWhere] using h
  exact List.filter_eq_self.mpr fun r hr => by simp [hp r hr]

omit [DecidableEq κ] in
theorem uniqueKey_deleteWhere (h : UniqueKey key rows) : UniqueKey key (deleteWhere p rows).2 :=
  h.sublist (List.filter_sublist.map key)

theorem lookup_deleteWhere (h : UniqueKey key rows) (k : κ) :
    lookup key k (deleteWhere p rows).2 = (lookup key k rows).filter fun r => !p r := by
  cases hk : lookup key k rows with
  | none =>
    rw [Option.filter_none, lookup_eq_none]
    intro r hr
    exact lookup_eq_none.mp hk r (List.mem_of_mem_filter hr)
  | some r =>
    have hr := mem_of_lookup hk
    have hkr := key_of_lookup hk
    by_cases hpr : p r = true
    · rw [Option.filter_some, if_neg (by simp [hpr]), lookup_eq_none]
      intro r' hr' hkr'
      obtain ⟨hmem, hnot⟩ := List.mem_filter.mp hr'
      rw [List.inj_on_of_nodup_map h hmem hr (hkr'.trans hkr.symm)] at hnot
      simp [hpr] at hnot
    · rw [Option.filter_some, if_pos (by simp [hpr])]
      exact lookup_of_mem (uniqueKey_deleteWhere h) (List.mem_filter.mpr ⟨hr, by simp [hpr]⟩) hkr

/-! ### Insertions -/

theorem uniqueKey_concat (h : UniqueKey key rows) (hr : lookup key (key r) rows = none) :
    UniqueKey key (rows ++ [r]) := by
  rw [UniqueKey, List.map_append, List.map_singleton, List.nodup_append]
  refine ⟨h, List.nodup_singleton _, ?_⟩
  intro a ha b hb
  obtain ⟨r', hr', rfl⟩ := List.mem_map.mp ha
  rw [List.mem_singleton.mp hb]
  exact lookup_eq_none.mp hr r' hr'

theorem lookup_concat (k : κ) :
    lookup key k (rows ++ [r]) =
      (lookup key k rows).or (if key r = k then some r else none) := by
  rw [lookup_append]
  congr 1
  simp only [lookup, List.find?_singleton, decide_eq_true_eq]

/-! ### The newest rows -/

section Newest

omit [DecidableEq κ]

/-- `SELECT … WHERE p ORDER BY seq DESC LIMIT k` -/
def selectNewest (p : α → Bool) (seq : α → ℤ) (k : ℕ) (rows : List α) : List α :=
  ((rows.filter p).mergeSort fun a b => decide (seq b ≤ seq a)).take k

/-- These are the newest `k` of some rows, newest first: none that is left out is newer. -/
structure IsNewest (seq : α → ℤ) (k : ℕ) (rows listed : List α) : Prop where
  length_eq : listed.length = min k rows.length
  descending : listed.Pairwise fun a b => seq b ≤ seq a
  exists_rest : ∃ rest, (listed ++ rest).Perm rows ∧ ∀ a ∈ listed, ∀ b ∈ rest, seq b ≤ seq a

theorem isNewest_selectNewest (p : α → Bool) (seq : α → ℤ) (k : ℕ) (rows : List α) :
    IsNewest seq k (rows.filter p) (selectNewest p seq k rows) := by
  have hperm := List.mergeSort_perm (rows.filter p) fun a b => decide (seq b ≤ seq a)
  have hsorted : ((rows.filter p).mergeSort fun a b => decide (seq b ≤ seq a)).Pairwise
      fun a b => decide (seq b ≤ seq a) = true :=
    List.pairwise_mergeSort (fun a b c hab hbc => by simp only [decide_eq_true_eq] at *; omega)
      (fun a b => by simp only [Bool.or_eq_true, decide_eq_true_eq]; omega) _
  simp only [decide_eq_true_eq] at hsorted
  have hsplit := List.take_append_drop k
    ((rows.filter p).mergeSort fun a b => decide (seq b ≤ seq a))
  refine ⟨?_, hsorted.sublist (List.take_sublist k _), _, hsplit.symm ▸ hperm, ?_⟩
  · rw [selectNewest, List.length_take, hperm.length_eq]
  · rw [← hsplit, List.pairwise_append] at hsorted
    exact hsorted.2.2

end Newest

end Table
