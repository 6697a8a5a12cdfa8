import Sysknife.Postgres.Sessions

/-!
# What the writes of a transaction amount to

The writes of one database transaction, seen from a single row: what they leave of its approval
and its status, and which events they add to its history. What a complete transaction has written
(`Complete`) is then read off its events: a grant comes with an approval row, a revocation with a
deleted one, a status event with a changed status.
-/

namespace Sysknife.Postgres

open Audit Store

variable {s : PgTables} {t : String} {w : Write} {ws : List Write}

namespace PgTables

@[simp] theorem writes_nil (s : PgTables) : s.writes [] = s := rfl

@[simp] theorem writes_append (s : PgTables) (ws ws' : List Write) :
    s.writes (ws ++ ws') = (s.writes ws).writes ws' := List.foldl_append

theorem writes_singleton (s : PgTables) (w : Write) : s.writes [w] = w.apply s := rfl

end PgTables

/-! ### Histories -/

namespace Write

/-- The event a write adds about a transaction. -/
def kindOf (t : String) : Write → Option String
  | .insertEvent row => if row.transactionId = t then some row.kind else none
  | _ => none

/-- The write inserts an approval of the transaction. -/
def Grants (t : String) (w : Write) : Prop := ∃ row, w = .insertApproval row ∧ row.transactionId = t

/-- The write deletes or spends the approval of the transaction. -/
def Ends (t : String) (w : Write) : Prop :=
  w = .deleteApproval t ∨ ∃ at_, w = .consumeApproval t at_

end Write

/-- The events that several writes add about a transaction. -/
def kindsOf (t : String) (ws : List Write) : List String := ws.filterMap (Write.kindOf t)

theorem historyOf_apply (s : PgTables) (w : Write) (t : String) :
    (w.apply s).historyOf t = s.historyOf t ++ (w.kindOf t).toList := by
  cases w with
  | insertEvent row =>
    by_cases ht : row.transactionId = t
    · simp [PgTables.historyOf, Write.apply, Write.kindOf, List.filter_append, ht]
    · simp [PgTables.historyOf, Write.apply, Write.kindOf, List.filter_append, ht]
  | _ => simp [PgTables.historyOf, Write.apply, Write.kindOf]

theorem historyOf_writes (s : PgTables) (ws : List Write) (t : String) :
    (s.writes ws).historyOf t = s.historyOf t ++ kindsOf t ws := by
  induction ws using List.reverseRecOn with
  | nil => simp [kindsOf]
  | append_singleton ws w ih =>
    rw [PgTables.writes_append, PgTables.writes_singleton, historyOf_apply, ih, List.append_assoc]
    cases hw : w.kindOf t <;> simp [kindsOf, hw]

/-! ### Approvals -/

/-- Only the writes that lock an approval change it. -/
theorem approvals_apply (s : PgTables) (h : .approval t ∉ w.locks) :
    (w.apply s).approvals t = s.approvals t := by
  cases w <;> simp_all [Write.apply, Write.locks]

theorem approvals_writes (s : PgTables) (h : ∀ w ∈ ws, .approval t ∉ w.locks) :
    (s.writes ws).approvals t = s.approvals t := by
  induction ws using List.reverseRecOn with
  | nil => rfl
  | append_singleton ws w ih =>
    rw [PgTables.writes_append, PgTables.writes_singleton, approvals_apply _ (h w (by simp)),
      ih fun w' hw' => h w' (by simp [hw'])]

theorem unconsumed_eq_of_approvals {s' : PgTables} (h : s'.approvals t = s.approvals t) :
    s'.unconsumed t = s.unconsumed t := by
  rw [PgTables.unconsumed, PgTables.unconsumed, h]

theorem unconsumed_apply_of_ends (s : PgTables) (h : w.Ends t) :
    (w.apply s).unconsumed t = none := by
  rcases h with rfl | ⟨at_, rfl⟩
  · simp [PgTables.unconsumed, Write.apply]
  · cases hs : s.approvals t <;> simp [PgTables.unconsumed, Write.apply, hs]

/-- A write on an approval inserts, deletes or spends it. -/
theorem grants_or_ends (h : .approval t ∈ w.locks) : w.Grants t ∨ w.Ends t := by
  cases w with
  | insertApproval row =>
    simp only [Write.locks, List.mem_singleton, Lock.approval.injEq] at h
    exact .inl ⟨row, rfl, h.symm⟩
  | consumeApproval t' at_ =>
    simp only [Write.locks, List.mem_singleton, Lock.approval.injEq] at h
    exact .inr (.inr ⟨at_, by rw [h]⟩)
  | deleteApproval t' =>
    simp only [Write.locks, List.mem_singleton, Lock.approval.injEq] at h
    exact .inr (.inl (by rw [h]))
  | _ => simp [Write.locks] at h

/-- An unspent approval was inserted by the writes, or left alone by them. -/
theorem unconsumed_writes (h : ((s.writes ws).unconsumed t).isSome) :
    (∃ w ∈ ws, w.Grants t) ∨ ((s.unconsumed t).isSome ∧ ∀ w ∈ ws, ¬ w.Ends t) := by
  induction ws using List.reverseRecOn with
  | nil => exact .inr ⟨h, by simp⟩
  | append_singleton ws w ih =>
    rw [PgTables.writes_append, PgTables.writes_singleton] at h
    by_cases hgrants : w.Grants t
    · exact .inl ⟨w, by simp, hgrants⟩
    · have hends : ¬ w.Ends t := fun hends => by simp [unconsumed_apply_of_ends _ hends] at h
      have hfree : .approval t ∉ w.locks := fun hl => (grants_or_ends hl).elim hgrants hends
      rw [unconsumed_eq_of_approvals (approvals_apply _ hfree)] at h
      rcases ih h with ⟨w', hw', hgrants'⟩ | ⟨hs, hws⟩
      · exact .inl ⟨w', by simp [hw'], hgrants'⟩
      · refine .inr ⟨hs, fun w' hw' => ?_⟩
        rw [List.mem_append, List.mem_singleton] at hw'
        rcases hw' with hw' | rfl
        · exact hws w' hw'
        · exact hends

/-! ### Status -/

theorem findTransaction_apply (s : PgTables) (w : Write) (t : String) :
    (w.apply s).findTransaction t =
      match w with
      | .insertTransaction row =>
        (s.findTransaction t).or (if row.transactionId = t then some row else none)
      | .setStatus t' status =>
        (s.findTransaction t).map fun r => if r.transactionId = t' then { r with status } else r
      | _ => s.findTransaction t := by
  cases w with
  | insertTransaction row => exact Table.lookup_concat t
  | setStatus t' status =>
    simp only [PgTables.findTransaction, Write.apply]
    rw [Table.lookup_updateWhere]
    · simp
    · intro r
      rfl
  | _ => rfl

/-- Transactions are inserted and never deleted. -/
theorem isSome_findTransaction_writes_iff (s : PgTables) (ws : List Write) (t : String) :
    ((s.writes ws).findTransaction t).isSome ↔
      (s.findTransaction t).isSome ∨
        ∃ row, .insertTransaction row ∈ ws ∧ row.transactionId = t := by
  induction ws using List.reverseRecOn with
  | nil => simp
  | append_singleton ws w ih =>
    rw [PgTables.writes_append, PgTables.writes_singleton, findTransaction_apply]
    cases w with
    | insertTransaction row =>
      by_cases ht : row.transactionId = t
      · simp [ht]
      · simp [ht, ih, or_and_right, exists_or]
    | _ => simp [ih]

theorem isSome_findTransaction_writes (ws : List Write) (h : (s.findTransaction t).isSome) :
    ((s.writes ws).findTransaction t).isSome :=
  (isSome_findTransaction_writes_iff s ws t).mpr (.inl h)

/-- The status of a transaction is the one that was set last. -/
theorem statusOf_writes {status : JobState} (ws : List Write) (h : s.statusOf t = some status) :
    ((∀ st, .setStatus t st ∉ ws) ∧ (s.writes ws).statusOf t = some status) ∨
      ∃ st, .setStatus t st ∈ ws ∧ (s.writes ws).statusOf t = some st := by
  induction ws using List.reverseRecOn with
  | nil => exact .inl ⟨by simp, h⟩
  | append_singleton ws w ih =>
    have hcurrent : ∃ r, (s.writes ws).findTransaction t = some r := by
      rw [← Option.isSome_iff_exists]
      apply isSome_findTransaction_writes
      rw [PgTables.statusOf] at h
      simpa using congrArg Option.isSome h
    obtain ⟨r, hr⟩ := hcurrent
    have hid : r.transactionId = t := by
      simpa using List.find?_some hr
    rw [PgTables.writes_append, PgTables.writes_singleton]
    by_cases hw : ∃ st, w = .setStatus t st
    · obtain ⟨st, rfl⟩ := hw
      refine .inr ⟨st, by simp, ?_⟩
      rw [PgTables.statusOf, findTransaction_apply, hr]
      simp [hid]
    · have hsame : (w.apply (s.writes ws)).statusOf t = (s.writes ws).statusOf t := by
        rw [PgTables.statusOf, PgTables.statusOf, findTransaction_apply, hr]
        cases w with
        | setStatus t' st =>
          have hne : r.transactionId ≠ t' := by
            rintro rfl
            exact hw ⟨st, by rw [hid]⟩
          simp [hne]
        | _ => simp
      rw [hsame]
      rcases ih with ⟨hnone, hstatus⟩ | ⟨st, hst, hstatus⟩
      · refine .inl ⟨fun st hmem => ?_, hstatus⟩
        rw [List.mem_append, List.mem_singleton] at hmem
        rcases hmem with hmem | hmem
        · exact hnone st hmem
        · exact hw ⟨st, hmem.symm⟩
      · exact .inr ⟨st, by simp [hst], hstatus⟩

/-! ### Statements that write -/

section Writes

variable {env : StoreEnv} {clock : Clock} {st : Statement} {result : st.Result}

theorem of_write_consumeApproval {at_ : String} (hrun : st.run env clock s = .ok result)
    (h : st.write result = some (.consumeApproval t at_)) :
    st = .consumeApproval t at_ ∧ (s.unconsumed t).isSome := by
  cases st with
  | consumeApproval t' at_' =>
    simp only [Statement.write, Option.ite_none_right_eq_some, Option.some.injEq,
      Write.consumeApproval.injEq] at h
    obtain ⟨hpos, rfl, rfl⟩ := h
    simp only [Statement.run, Except.ok.injEq] at hrun
    refine ⟨rfl, ?_⟩
    by_contra hnone
    rw [if_neg hnone] at hrun
    rw [← hrun] at hpos
    exact Nat.lt_irrefl 0 hpos
  | _ => simp [Statement.write] at h

theorem of_write_insertApproval {row : ApprovalRow} (hrun : st.run env clock s = .ok result)
    (h : st.write result = some (.insertApproval row)) :
    st = .insertApproval row ∧ s.approvals row.transactionId = none := by
  cases st with
  | insertApproval row' =>
    simp only [Statement.write, Option.ite_none_right_eq_some, Option.some.injEq,
      Write.insertApproval.injEq] at h
    obtain ⟨hpos, rfl⟩ := h
    simp only [Statement.run, Except.ok.injEq] at hrun
    refine ⟨rfl, ?_⟩
    by_contra hsome
    rw [if_pos (Option.isSome_iff_ne_none.mpr hsome)] at hrun
    rw [← hrun] at hpos
    exact Nat.lt_irrefl 0 hpos
  | _ => simp [Statement.write] at h

/-- A status is only set on a row that was there. -/
theorem of_write_setStatus {status : JobState} (hrun : st.run env clock s = .ok result)
    (h : st.write result = some (.setStatus t status)) :
    (st = .updateQueued t status ∨ st = .updateStatus t status) ∧ (s.findTransaction t).isSome := by
  cases st with
  | updateQueued t' status' =>
    simp only [Statement.write, Option.ite_none_right_eq_some, Option.some.injEq,
      Write.setStatus.injEq] at h
    obtain ⟨hpos, rfl, rfl⟩ := h
    simp only [Statement.run, Except.ok.injEq] at hrun
    refine ⟨.inl rfl, ?_⟩
    by_contra hnone
    have hstatus : s.statusOf t' = none := by
      rw [PgTables.statusOf, Option.map_eq_none_iff]
      simpa using hnone
    rw [hstatus, if_neg (by simp)] at hrun
    rw [← hrun] at hpos
    exact Nat.lt_irrefl 0 hpos
  | updateStatus t' status' =>
    simp only [Statement.write, Option.ite_none_right_eq_some, Option.some.injEq,
      Write.setStatus.injEq] at h
    obtain ⟨hpos, rfl, rfl⟩ := h
    simp only [Statement.run, Except.ok.injEq] at hrun
    refine ⟨.inr rfl, ?_⟩
    by_contra hnone
    rw [if_neg hnone] at hrun
    rw [← hrun] at hpos
    exact Nat.lt_irrefl 0 hpos
  | _ => simp [Statement.write] at h

theorem of_write_insertEvent {row : EventRow} (h : st.write result = some (.insertEvent row)) :
    st = .insertEvent row := by
  cases st <;> simp_all [Statement.write]

theorem of_write_insertTransaction {row : TransactionRow}
    (h : st.write result = some (.insertTransaction row)) : st = .insertTransaction row := by
  cases st <;> simp_all [Statement.write]

end Writes

/-! ### Complete transactions -/

section Complete

variable {req : PgRequest} {missed lost : Bool} {t' : String}

/-- Canceling leaves no other events than these. -/
theorem kindsOf_block (h : CancelBlock t ws) :
    ∀ k ∈ kindsOf t' ws, t = t' ∧ .setStatus t .canceled ∈ ws ∧
      (k = AuditEventKind.statusCanceled.asStr ∨
        (k = AuditEventKind.approvalRevoked.asStr ∧ .deleteApproval t ∈ ws)) := by
  intro k hk
  cases h with
  | plain he =>
    obtain ⟨row, rfl, hkind, rfl⟩ := he
    by_cases ht : row.transactionId = t'
    · simp [kindsOf, List.filterMap_cons, Write.kindOf, hkind, ht] at hk
      exact ⟨ht, by simp, .inl hk⟩
    · simp [kindsOf, List.filterMap_cons, Write.kindOf, ht] at hk
  | revoking he he' =>
    obtain ⟨row, rfl, hkind, rfl⟩ := he
    obtain ⟨row', rfl, hkind', hid⟩ := he'
    by_cases ht : row.transactionId = t'
    · simp [kindsOf, List.filterMap_cons, Write.kindOf, hkind, hkind', hid, ht] at hk
      exact ⟨ht, by simp, hk.symm.imp id fun hk => ⟨hk, by simp⟩⟩
    · simp [kindsOf, List.filterMap_cons, Write.kindOf, hid, ht] at hk

theorem kindsOf_append (t : String) (ws ws' : List Write) :
    kindsOf t (ws ++ ws') = kindsOf t ws ++ kindsOf t ws' := List.filterMap_append

theorem kindsOf_cancels (h : Cancels ws) :
    ∀ k ∈ kindsOf t ws, .setStatus t .canceled ∈ ws ∧
      (k = AuditEventKind.statusCanceled.asStr ∨
        (k = AuditEventKind.approvalRevoked.asStr ∧ .deleteApproval t ∈ ws)) := by
  induction h with
  | nil => simp [kindsOf]
  | concat _ hblock ih =>
    intro k hk
    rw [kindsOf_append, List.mem_append] at hk
    rcases hk with hk | hk
    · obtain ⟨hset, hkind⟩ := ih k hk
      exact ⟨by simp [hset], hkind.imp id fun h => ⟨h.1, by simp [h.2]⟩⟩
    · obtain ⟨rfl, hset, hkind⟩ := kindsOf_block hblock k hk
      exact ⟨by simp [hset], hkind.imp id fun h => ⟨h.1, by simp [h.2]⟩⟩

theorem eq_canceled_of_cancels {st : JobState} (h : Cancels ws) (hmem : .setStatus t st ∈ ws) :
    st = .canceled := by
  induction h with
  | nil => cases hmem
  | concat _ hblock ih =>
    rw [List.mem_append] at hmem
    rcases hmem with hmem | hmem
    · exact ih hmem
    · cases hblock with
      | plain he =>
        obtain ⟨row, rfl, -⟩ := he
        simp at hmem
        exact hmem.2
      | revoking he he' =>
        obtain ⟨row, rfl, -⟩ := he
        obtain ⟨row', rfl, -⟩ := he'
        simp at hmem
        exact hmem.2

/-- What a complete transaction does about one of the transactions it is about. -/
inductive Share (req : PgRequest) (missed lost : Bool) (t : String) (ws : List Write) : Prop
  /-- No event, no change of the approval or of the status. -/
  | nothing (hkinds : kindsOf t ws = []) (happroval : ∀ w ∈ ws, .approval t ∉ w.locks)
      (hstatus : ∀ st, .setStatus t st ∉ ws)
  | approve (hkinds : kindsOf t ws = [AuditEventKind.approvalGranted.asStr])
      (hgrants : ∃ w ∈ ws, w.Grants t) (hstatus : ∀ st, .setStatus t st ∉ ws)
  | revoke (hkinds : kindsOf t ws = [AuditEventKind.approvalRevoked.asStr])
      (hends : ∃ w ∈ ws, w.Ends t) (hgrants : ∀ w ∈ ws, ¬ w.Grants t)
      (hstatus : ∀ st, .setStatus t st ∉ ws)
  | claim (hkinds : kindsOf t ws =
        [AuditEventKind.approvalConsumed.asStr, AuditEventKind.statusRunning.asStr])
      (hends : (∃ at_, .consumeApproval t at_ ∈ ws) ∨
        (missed = true ∧ ∃ digest executor, req = .claim t digest executor))
      (hgrants : ∀ w ∈ ws, ¬ w.Grants t)
      (hset : .setStatus t .running ∈ ws) (hstatus : ∀ st, .setStatus t st ∈ ws → st ≠ .queued)
  | move (st : JobState) (hkinds : kindsOf t ws = [(AuditEventKind.ofJobState st).asStr])
      (happroval : ∀ w ∈ ws, .approval t ∉ w.locks)
      (hset : lost = true ∨ .setStatus t st ∈ ws)
      (hstatus : ∀ st, .setStatus t st ∈ ws → st ≠ .queued)
  | cancel (hkinds : ∀ k ∈ kindsOf t ws, k = AuditEventKind.statusCanceled.asStr ∨
        (k = AuditEventKind.approvalRevoked.asStr ∧ .deleteApproval t ∈ ws))
      (hgrants : ∀ w ∈ ws, ¬ w.Grants t) (hset : kindsOf t ws = [] ∨ .setStatus t .canceled ∈ ws)
      (hstatus : ∀ st, .setStatus t st ∈ ws → st ≠ .queued)

/-- No complete transaction moves anything to `Queued`. -/
theorem Share.ne_queued {st : JobState} (h : Share req missed lost t ws)
    (hset : .setStatus t st ∈ ws) : st ≠ .queued := by
  cases h with
  | nothing _ _ hstatus | approve _ _ hstatus | revoke _ _ _ hstatus =>
    exact absurd hset (hstatus st)
  | claim _ _ _ _ hstatus | move _ _ _ _ hstatus | cancel _ _ _ hstatus => exact hstatus st hset

/-- A grant is the only event about its transaction. -/
theorem Share.eq_of_granted (h : Share req missed lost t ws)
    (hmem : AuditEventKind.approvalGranted.asStr ∈ kindsOf t ws) :
    kindsOf t ws = [AuditEventKind.approvalGranted.asStr] ∧ ∃ w ∈ ws, w.Grants t := by
  cases h with
  | nothing hkinds =>
    rw [hkinds] at hmem
    cases hmem
  | approve hkinds hgrants => exact ⟨hkinds, hgrants⟩
  | revoke hkinds | claim hkinds =>
    rw [hkinds] at hmem
    exact absurd hmem (by decide)
  | move st hkinds =>
    rw [hkinds] at hmem
    cases st <;> exact absurd hmem (by decide)
  | cancel hkinds => rcases hkinds _ hmem with hk | ⟨hk, -⟩ <;> exact absurd hk (by decide)

/-- An event that records a change of status comes with one. -/
theorem Share.setStatus_of_status {st : JobState} (h : Share req missed lost t ws)
    (hmem : (AuditEventKind.ofJobState st).asStr ∈ kindsOf t ws) :
    lost = true ∨ ∃ st', .setStatus t st' ∈ ws := by
  cases h with
  | nothing hkinds =>
    rw [hkinds] at hmem
    cases hmem
  | approve hkinds | revoke hkinds =>
    rw [hkinds, List.mem_singleton] at hmem
    cases st <;> exact absurd hmem (by decide)
  | claim _ _ _ hset => exact .inr ⟨_, hset⟩
  | move st' _ _ hset => exact hset.imp id fun hset => ⟨st', hset⟩
  | cancel _ _ hset =>
    rcases hset with hkinds | hset
    · rw [hkinds] at hmem
      cases hmem
    · exact .inr ⟨_, hset⟩

theorem not_grants_of_cancels (h : Cancels ws) : ∀ w ∈ ws, ¬ w.Grants t := by
  rintro w hw ⟨row, rfl, -⟩
  exact (not_insert_of_cancels h).1 row hw

/-- **What a complete transaction does about any one transaction.** -/
theorem Complete.share (h : Complete req missed lost ws) (t' : String) :
    Share req missed lost t' ws := by
  cases h with
  | record row h => exact .nothing rfl (by simp [Write.locks]) (by simp)
  | recordPreviewed row t preview h => exact .nothing rfl (by simp [Write.locks]) (by simp)
  | @approve t digest e he =>
    obtain ⟨row, rfl, hkind, rfl⟩ := he
    by_cases ht : row.transactionId = t'
    · exact .approve (by simp [kindsOf, List.filterMap_cons, Write.kindOf, hkind, ht])
        ⟨_, List.mem_cons_self, _, rfl, ht⟩ (by simp)
    · exact .nothing (by simp [kindsOf, List.filterMap_cons, Write.kindOf, ht])
        (by simp [Write.locks, Ne.symm ht])
        (by simp)
  | @revoke t e he =>
    obtain ⟨row, rfl, hkind, rfl⟩ := he
    by_cases ht : row.transactionId = t'
    · exact .revoke (by simp [kindsOf, List.filterMap_cons, Write.kindOf, hkind, ht])
        ⟨_, List.mem_cons_self, .inl (by rw [ht])⟩ (by simp [Write.Grants]) (by simp)
    · exact .nothing (by simp [kindsOf, List.filterMap_cons, Write.kindOf, ht])
        (by simp [Write.locks, Ne.symm ht])
        (by simp)
  | @claim t consumedAt e e' he he' =>
    obtain ⟨row, rfl, hkind, rfl⟩ := he
    obtain ⟨row', rfl, hkind', hid⟩ := he'
    by_cases ht : row.transactionId = t'
    · exact .claim (by simp [kindsOf, List.filterMap_cons, Write.kindOf, hkind, hkind', hid, ht])
        (.inl ⟨consumedAt, by simp [ht]⟩) (by simp [Write.Grants]) (by simp [ht]) (by simp)
    · exact .nothing (by simp [kindsOf, List.filterMap_cons, Write.kindOf, hid, ht])
        (by simp [Write.locks, Ne.symm ht]) (by simp [Ne.symm ht])
  | @claimMissed t digest executor e e' hclaim hmissed he he' =>
    obtain ⟨row, rfl, hkind, rfl⟩ := he
    obtain ⟨row', rfl, hkind', hid⟩ := he'
    by_cases ht : row.transactionId = t'
    · exact .claim (by simp [kindsOf, List.filterMap_cons, Write.kindOf, hkind, hkind', hid, ht])
        (.inr ⟨hmissed, digest, executor, ht ▸ hclaim⟩) (by simp [Write.Grants]) (by simp [ht])
        (by simp)
    · exact .nothing (by simp [kindsOf, List.filterMap_cons, Write.kindOf, hid, ht])
        (by simp [Write.locks])
        (by simp [Ne.symm ht])
  | @move t st e hst he =>
    obtain ⟨row, rfl, hkind, rfl⟩ := he
    by_cases ht : row.transactionId = t'
    · exact .move st (by simp [kindsOf, List.filterMap_cons, Write.kindOf, hkind, ht])
        (by simp [Write.locks])
        (.inr (by simp [ht])) (by simp [hst])
    · exact .nothing (by simp [kindsOf, List.filterMap_cons, Write.kindOf, ht])
        (by simp [Write.locks])
        (by simp [Ne.symm ht])
  | @moveLost t st e hlost he =>
    obtain ⟨row, rfl, hkind, rfl⟩ := he
    by_cases ht : row.transactionId = t'
    · exact .move st (by simp [kindsOf, Write.kindOf, hkind, ht]) (by simp [Write.locks])
        (.inl hlost) (by simp)
    · exact .nothing (by simp [kindsOf, Write.kindOf, ht]) (by simp [Write.locks]) (by simp)
  | cancels h =>
    refine .cancel (fun k hk => (kindsOf_cancels h k hk).2) (not_grants_of_cancels h) ?_ ?_
    · rcases hk : kindsOf t' ws with - | ⟨k, ks⟩
      · exact .inl rfl
      · exact .inr (kindsOf_cancels h k (by simp [hk])).1
    · intro st hmem
      rw [eq_canceled_of_cancels h hmem]
      decide

end Complete

end Sysknife.Postgres
