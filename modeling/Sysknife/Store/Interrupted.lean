import Sysknife.Store.Effects
import Sysknife.Store.Reconcile
import Sysknife.Store.Status

/-!
# What a start leaves of a store

A start fails the transactions that are running, by single status writes that may break off
anywhere (`failEach`, `reconcilePages`). However far it comes, it takes transactions along their
lives into `Failed` and nowhere else, spends or grants no approval (`approvals_failEach`), and
leaves alone what does not run (`same_failEach`). Where it comes to its end nothing runs, and a
transaction that ran has failed, with one event more (`FailedOn.not_running`,
`FailedOn.historyOf`).
-/

namespace Sysknife.Store

open Audit Tables

variable {env : StoreEnv} {clock : Clock} {s s' : Tables} {t : String}

/-! ### Writes that may break off -/

/-- The store after some writes that fail transactions follows the one before. -/
theorem advances_failEach (hs : Lives s) (ids : List String) :
    Advances (· = .failed) s (failEach env clock ids s).2 :=
  Touch.advances_of_reflTransGen (fun st hst => by rw [hst]; rfl)
    (touches_failEach hs.grounded) hs

theorem advances_reconcile (hs : Lives s) :
    Advances (· = .failed) s (reconcileInterruptedRunning env clock s).2 :=
  Touch.advances_of_reflTransGen (fun st hst => by rw [hst]; rfl)
    (touches_reconcilePages hs.grounded) hs

/-- Writing a status is no matter of approvals. -/
theorem approvals_updateStatus {status : JobState} {u : Unit}
    (h : updateStatus env clock t status s = .ok (u, s')) : s'.approvals = s.approvals := by
  unfold updateStatus at h
  split at h
  · cases h
  · simp only at h
    split_ifs at h
    obtain ⟨key, -, h⟩ := exists_of_bind_eq_ok h
    obtain ⟨-, rfl⟩ := Prod.mk.inj (Except.ok.inj h)
    rfl

theorem approvals_failEach (ids : List String) (s : Tables) :
    (failEach env clock ids s).2.approvals = s.approvals := by
  induction ids generalizing s with
  | nil => rfl
  | cons id ids ih =>
    rw [failEach]
    split
    · rfl
    · rename_i s₁ hupdate
      rw [ih, approvals_updateStatus hupdate]

/-- What survives failing a page survives the loop, wherever it ends. -/
theorem reconcilePages_induction {Q : Tables → Prop}
    (hpage : ∀ s, Q s → Q (failEach env clock s.runningPage s).2) (rounds total : ℕ) (hs : Q s) :
    Q (reconcilePages env clock rounds total s).2 := by
  induction rounds generalizing total s with
  | zero => exact hs
  | succ rounds ih =>
    have hnext := hpage s hs
    unfold reconcilePages
    simp only
    split
    · exact hs
    · split
      · rename_i hfail
        rw [hfail] at hnext
        exact hnext
      · rename_i hfail
        rw [hfail] at hnext
        split
        · exact hnext
        · exact ih _ hnext

theorem approvals_reconcile (s : Tables) :
    (reconcileInterruptedRunning env clock s).2.approvals = s.approvals :=
  reconcilePages_induction (Q := fun s₁ => s₁.approvals = s.approvals)
    (fun s₁ h => (approvals_failEach s₁.runningPage s₁).trans h) _ _ rfl

theorem approvalOf_of_approvals (h : s'.approvals = s.approvals) (t : String) :
    s'.approvalOf t = s.approvalOf t := by
  rw [approvalOf, approvalOf, findApproval, findApproval, h]

/-- A transaction that is not listed is left alone. -/
theorem same_failEach {ids : List String} (hs : Lives s) (ht : t ∉ ids) :
    Same s (failEach env clock ids s).2 t := by
  induction ids generalizing s with
  | nil => exact .rfl
  | cons id ids ih =>
    obtain ⟨hne, ht⟩ := not_or.mp (mt List.mem_cons.mpr ht)
    rw [failEach]
    split
    · exact .rfl
    · rename_i s₁ hupdate
      obtain ⟨st, -, -, htouched⟩ := updateStatus_spec hs.keyed hupdate
      have hlives : Lives s₁ := ((touch_updateStatus hs.grounded hupdate).advances hs).lives
      exact (htouched.frame t hne).trans (ih hlives ht)

/-- The listed running transactions run. -/
theorem statusOf_of_mem_runningIds (hs : s.Keyed) {id : String} (hid : id ∈ s.runningIds) :
    s.statusOf id = some .running := by
  obtain ⟨row, hrow, hrunning, rfl⟩ := mem_runningIds.mp hid
  rw [statusOf_of_mem hs hrow, hrunning]

/-- The row of a transaction whose status is known. -/
theorem exists_row {st : JobState} (h : s.statusOf t = some st) :
    ∃ row, s.findTransaction t = some row ∧ row ∈ s.transactions ∧ row.transactionId = t ∧
      row.status = st := by
  rw [statusOf, Option.map_eq_some_iff] at h
  obtain ⟨row, hrow, hstatus⟩ := h
  have hlookup : Table.lookup (fun r : TransactionRow => r.transactionId) t s.transactions =
      some row := hrow
  have hid : row.transactionId = t := by simpa using List.find?_some hlookup
  exact ⟨row, hrow, Table.mem_of_lookup hlookup, hid, hstatus⟩

theorem mem_runningIds_of_statusOf (h : s.statusOf t = some .running) : t ∈ s.runningIds := by
  obtain ⟨row, -, hmem, hid, hrunning⟩ := exists_row h
  exact mem_runningIds.mpr ⟨row, hmem, hrunning, hid⟩

/-- What does not run is left alone. -/
theorem same_reconcile (hs : Lives s) (ht : s.statusOf t ≠ some .running) :
    Same s (reconcileInterruptedRunning env clock s).2 t := by
  have hkept : Lives (reconcileInterruptedRunning env clock s).2 ∧
      Same s (reconcileInterruptedRunning env clock s).2 t := by
    refine reconcilePages_induction (Q := fun s₁ => Lives s₁ ∧ Same s s₁ t) (fun s₁ h => ?_) _ _
      ⟨hs, .rfl⟩
    obtain ⟨hs₁, hsame⟩ := h
    refine ⟨(advances_failEach hs₁ _).lives, hsame.trans (same_failEach hs₁ fun hmem => ht ?_)⟩
    rw [runningPage_eq] at hmem
    rw [← hsame.status]
    exact statusOf_of_mem_runningIds hs₁.keyed (List.mem_of_mem_take hmem)
  exact hkept.2

/-! ### A start that comes to its end -/

/-- All running transactions are failed. -/
theorem reconcile_failedOn {key : AuditKey} (hkey : env.auditKey = some key) (hs : s.KeyedById) :
    FailedOn s.runningIds s (reconcileInterruptedRunning env clock s).2 := by
  obtain ⟨s', hfailed, hloop⟩ := reconcilePages_eq clock hkey 0 hs
  have hle : s.runningIds.length ≤ s.transactions.length := by
    rw [Tables.runningIds, List.length_map]
    exact (List.length_filter_le _ _).trans List.length_reverse.le
  rw [reconcileInterruptedRunning, hloop _ (Nat.lt_succ_of_le hle)]
  exact hfailed

namespace FailedOn

variable {ids : List String}

/-- Nothing runs once everything that ran has failed. -/
theorem not_running (h : FailedOn s.runningIds s s') (t : String) :
    s'.statusOf t ≠ some .running := by
  intro hrunning
  have hmem := mem_runningIds_of_statusOf hrunning
  rw [h.runningIds_eq, List.mem_filter] at hmem
  simp [hmem.1] at hmem

/-- A listed transaction has failed. -/
theorem statusOf (h : FailedOn ids s s') {st : JobState} (hst : s.statusOf t = some st)
    (ht : t ∈ ids) : s'.statusOf t = some .failed := by
  obtain ⟨row, hrow, -, hid, -⟩ := exists_row hst
  have hfind : s'.findTransaction t = some (failIfListed ids row) := by
    have hmap : (fun r : TransactionRow => decide (r.transactionId = t)) ∘ failIfListed ids =
        fun r => decide (r.transactionId = t) :=
      funext fun r => by simp only [Function.comp, transactionId_failIfListed]
    rw [findTransaction, Table.lookup] at hrow ⊢
    rw [h.transactions, List.find?_map, hmap, hrow, Option.map_some]
  rw [Tables.statusOf, hfind, Option.map_some, failIfListed, hid, if_pos ht]

/-- A listed transaction has one event more. -/
theorem historyOf (h : FailedOn ids s s') (hnodup : ids.Nodup) (ht : t ∈ ids) :
    s'.historyOf t = s.historyOf t ++ [AuditEventKind.statusFailed.asStr] := by
  obtain ⟨added, hevents, hadded⟩ := h.events
  -- the events of the transaction are the entries of the list that name it
  have hkinds (l : List EventRow) : (l.filter (·.transactionId == t)).map EventRow.kind =
      ((l.map fun e => (e.kind, e.transactionId)).filter (·.2 == t)).map Prod.fst := by
    rw [List.filter_map, List.map_map]
    rfl
  have hone : ids.filter (· == t) = [t] := by
    rw [List.filter_beq, hnodup.count, if_pos ht, List.replicate_one]
  rw [Tables.historyOf, hevents, List.filter_append, List.map_append, hkinds added, hadded,
    List.filter_map]
  congr 1
  have htest : ((fun e : String × String => e.2 == t) ∘
      fun id => (AuditEventKind.statusFailed.asStr, id)) = (· == t) := rfl
  rw [htest, hone]
  rfl

end FailedOn

end Sysknife.Store
