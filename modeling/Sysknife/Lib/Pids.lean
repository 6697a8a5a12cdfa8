import Mathlib.Data.Nat.Notation
import Mathlib.Logic.Function.Basic
import Mathlib.Logic.Relation

/-!
# Process tables

A process has an identity of its own and, while it is in the table, a number (its PID). It ends,
is reaped, and only then is its number free for another process (`Table.Step`).

* `Table.Step.reaped`: a process that was reaped never comes back.
* `Table.names_of_not_reaped`: while a process has not been reaped, its number is its own. So
  whoever looks something up by number and finds afterwards that the process is still there
  has looked at that process.
-/

open Relation (ReflTransGen)

namespace Pids

variable {Cred : Type}

/-- A process. -/
structure Process (Cred : Type) where
  /-- What no other process is called, at any time. -/
  id : ℕ
  /-- What it may do. -/
  cred : Cred
  /-- It has ended and waits to be reaped. -/
  zombie : Bool

/-- The processes by their numbers. -/
structure Table (Cred : Type) where
  lookup : ℕ → Option (Process Cred)
  /-- The identity the next process gets. -/
  next : ℕ
  id_lt : ∀ {pid : ℕ} {p : Process Cred}, lookup pid = some p → p.id < next
  pid_unique : ∀ {pid pid' : ℕ} {p p' : Process Cred}, lookup pid = some p →
    lookup pid' = some p' → p.id = p'.id → pid = pid'

namespace Table

/-- No process. -/
def empty : Table Cred where
  lookup _ := none
  next := 0
  id_lt h := by cases h
  pid_unique h := by cases h

/-- A process ends, or changes what it may do. -/
def change (t : Table Cred) {pid : ℕ} {p : Process Cred} (h : t.lookup pid = some p) (cred : Cred)
    (zombie : Bool) : Table Cred where
  lookup := Function.update t.lookup pid (some ⟨p.id, cred, zombie⟩)
  next := t.next
  id_lt := by
    intro pid' q hq
    rw [Function.update_apply] at hq
    split at hq
    · obtain rfl := Option.some.inj hq
      have hlt := t.id_lt h
      exact hlt
    · exact t.id_lt hq
  pid_unique := by
    intro pid₁ pid₂ p₁ p₂ h₁ h₂ hid
    rw [Function.update_apply] at h₁ h₂
    split at h₁ <;> split at h₂
    · omega
    · obtain rfl := Option.some.inj h₁
      have hpid := t.pid_unique h h₂ hid
      omega
    · obtain rfl := Option.some.inj h₂
      have hpid := t.pid_unique h₁ h hid
      omega
    · exact t.pid_unique h₁ h₂ hid

/-- The number of a process that has ended becomes free. -/
def reap (t : Table Cred) (pid : ℕ) : Table Cred where
  lookup := Function.update t.lookup pid none
  next := t.next
  id_lt := by
    intro pid' q hq
    rw [Function.update_apply] at hq
    split at hq
    · cases hq
    · exact t.id_lt hq
  pid_unique := by
    intro pid₁ pid₂ p₁ p₂ h₁ h₂ hid
    rw [Function.update_apply] at h₁ h₂
    split at h₁
    · cases h₁
    · split at h₂
      · cases h₂
      · exact t.pid_unique h₁ h₂ hid

/-- A new process gets a number. -/
def spawn (t : Table Cred) (pid : ℕ) (cred : Cred) : Table Cred where
  lookup := Function.update t.lookup pid (some ⟨t.next, cred, false⟩)
  next := t.next + 1
  id_lt := by
    intro pid' q hq
    rw [Function.update_apply] at hq
    split at hq
    · obtain rfl := Option.some.inj hq
      exact Nat.lt_succ_self t.next
    · exact Nat.lt_succ_of_lt (t.id_lt hq)
  pid_unique := by
    intro pid₁ pid₂ p₁ p₂ h₁ h₂ hid
    rw [Function.update_apply] at h₁ h₂
    split at h₁ <;> split at h₂
    · omega
    · obtain rfl := Option.some.inj h₁
      have hlt := t.id_lt h₂
      simp only at hid
      omega
    · obtain rfl := Option.some.inj h₂
      have hlt := t.id_lt h₁
      simp only at hid
      omega
    · exact t.pid_unique h₁ h₂ hid

/-- What can happen to the processes. A number is given to a new process only if it is free, and
it becomes free only when its process, ended before, is reaped. -/
inductive Step (t : Table Cred) : Table Cred → Prop
  | change {pid : ℕ} {p : Process Cred} (h : t.lookup pid = some p) (cred : Cred) (zombie : Bool)
    (hended : p.zombie = true → zombie = true) : Step t (t.change h cred zombie)
  | reap {pid : ℕ} {p : Process Cred} (h : t.lookup pid = some p) (hended : p.zombie = true) :
    Step t (t.reap pid)
  | spawn {pid : ℕ} (hfree : t.lookup pid = none) (cred : Cred) : Step t (t.spawn pid cred)

/-- The number stands for the process. -/
def Names (t : Table Cred) (pid id : ℕ) : Prop := ∃ p, t.lookup pid = some p ∧ p.id = id

/-- The process was in the table, and is no more. -/
def Reaped (t : Table Cred) (id : ℕ) : Prop := id < t.next ∧ ∀ pid, ¬t.Names pid id

variable {t t' u : Table Cred} {pid id : ℕ}

/-- One step leaves a process its number, or reaps it. -/
theorem Step.names_or_reaped (hstep : t.Step t') (h : t.Names pid id) :
    t'.Names pid id ∨ t'.Reaped id := by
  obtain ⟨q, hq, rfl⟩ := h
  cases hstep with
  | @change pid' p hp cred zombie hended =>
    refine .inl ?_
    by_cases hpid : pid = pid'
    · subst hpid
      obtain rfl := Option.some.inj (hp.symm.trans hq)
      exact ⟨_, Function.update_self pid _ _, rfl⟩
    · exact ⟨q, (Function.update_of_ne hpid _ _).trans hq, rfl⟩
  | @reap pid' p hp hended =>
    by_cases hpid : pid = pid'
    · -- its only number is freed
      refine .inr ⟨t.id_lt hq, ?_⟩
      rintro pid'' ⟨r, hr, hid⟩
      simp only [Table.reap, Function.update_apply] at hr
      split at hr
      · cases hr
      · have hsame := t.pid_unique hr hq hid
        omega
    · exact .inl ⟨q, (Function.update_of_ne hpid _ _).trans hq, rfl⟩
  | @spawn pid' hfree cred =>
    have hpid : pid ≠ pid' := by
      rintro rfl
      rw [hq] at hfree
      cases hfree
    exact .inl ⟨q, (Function.update_of_ne hpid _ _).trans hq, rfl⟩

/-- A process that was reaped does not come back: new ones have identities of their own. -/
theorem Step.reaped (hstep : t.Step t') (h : t.Reaped id) : t'.Reaped id := by
  obtain ⟨hlt, hgone⟩ := h
  cases hstep with
  | @change pid' p hp cred zombie hended =>
    refine ⟨hlt, ?_⟩
    rintro pid ⟨r, hr, rfl⟩
    simp only [Table.change, Function.update_apply] at hr
    split at hr
    · obtain rfl := Option.some.inj hr
      exact hgone pid' ⟨p, hp, rfl⟩
    · exact hgone pid ⟨r, hr, rfl⟩
  | @reap pid' p hp hended =>
    refine ⟨hlt, ?_⟩
    rintro pid ⟨r, hr, rfl⟩
    simp only [Table.reap, Function.update_apply] at hr
    split at hr
    · cases hr
    · exact hgone pid ⟨r, hr, rfl⟩
  | @spawn pid' hfree cred =>
    refine ⟨Nat.lt_succ_of_lt hlt, ?_⟩
    rintro pid ⟨r, hr, rfl⟩
    simp only [Table.spawn, Function.update_apply] at hr
    split at hr
    · obtain rfl := Option.some.inj hr
      exact Nat.lt_irrefl t.next hlt
    · exact hgone pid ⟨r, hr, rfl⟩

theorem reaped_of_steps (h : ReflTransGen Step t t') (hreaped : t.Reaped id) : t'.Reaped id := by
  induction h with
  | refl => exact hreaped
  | tail _ hlast ih => exact hlast.reaped ih

theorem names_or_reaped_of_steps (h : ReflTransGen Step t t') (hnames : t.Names pid id) :
    t'.Names pid id ∨ t'.Reaped id := by
  induction h with
  | refl => exact .inl hnames
  | tail _ hlast ih =>
    rcases ih with hnames | hreaped
    · exact hlast.names_or_reaped hnames
    · exact .inr (hlast.reaped hreaped)

/-- **A number is its process's own until the process is reaped.** -/
theorem names_of_not_reaped (hnames : t.Names pid id) (hbefore : ReflTransGen Step t t')
    (hafter : ReflTransGen Step t' u) (h : ¬u.Reaped id) : t'.Names pid id :=
  (names_or_reaped_of_steps hbefore hnames).resolve_right fun hreaped =>
    h (reaped_of_steps hafter hreaped)

end Table

end Pids
