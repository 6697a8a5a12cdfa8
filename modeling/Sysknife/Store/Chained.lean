import Mathlib.Data.List.Induction
import Sysknife.Store.Sqlite

/-!
# The rows a store appends

The transaction table only ever grows by rows signed and linked as `Audit.Appended` asks: the
operations of the store change statuses, which are not among the chained columns, and
`insertTransaction` appends the next version 4 row. So the tamper evidence of `Audit.Chain`
speaks about the rows of this store (`appended_run`).
-/

namespace Sysknife.Store

open Audit

/-- The chained columns of the transaction table, in sequence order. -/
def Tables.chainRows (s : Tables) : List ChainRow := s.transactions.map TransactionRow.toChainRow

section

variable {env : StoreEnv} {clock : Clock} {key : AuditKey} {s s' : Tables} {t : String}

theorem chainRows_setStatusWhere (s : Tables) (p : TransactionRow → Bool) (status : JobState) :
    (s.setStatusWhere p status).2.chainRows = s.chainRows := by
  simp only [Tables.chainRows, Tables.setStatusWhere, Table.updateWhere, List.map_map]
  refine List.map_congr_left fun r _ => ?_
  simp only [Function.comp]
  split_ifs <;> rfl

/-- The row of a new transaction is signed over exactly its own columns. -/
theorem signedRow_newRow (tx : NewTransaction) :
    SignedRow key (newRow env clock key t tx s).toChainRow := by
  have hprincipal : (some tx.callerPrincipal.asSignedStr).filter (· ≠ "") =
      some tx.callerPrincipal.asSignedStr := by
    simp [CallerPrincipal.asSignedStr_ne_empty]
  refine ⟨.v4 tx.callerRole.asStr (s.eventChainTip.getD "") tx.callerPrincipal.asSignedStr, ?_, rfl⟩
  simp only [ChainRow.identity, newRow, ChainIdentity.version, requiredColumn]
  rw [hprincipal]
  rfl

theorem appended_insertTransaction {tx : NewTransaction} {rec_ : TransactionRecord}
    (hs : Appended key s.chainRows) (h : insertTransaction env clock key t tx s = .ok (rec_, s')) :
    Appended key s'.chainRows := by
  unfold insertTransaction at h
  split_ifs at h
  obtain ⟨-, rfl⟩ := Prod.mk.inj (Except.ok.inj h)
  have hrows : Tables.chainRows { s with transactions := s.transactions ++
      [newRow env clock key t tx s] } =
        s.chainRows ++ [(newRow env clock key t tx s).toChainRow] := by
    simp [Tables.chainRows]
  rw [hrows]
  exact .append hs rfl rfl (signedRow_newRow tx)

/-- What was written when transactions were recorded is as it was. -/
structure Tables.SameRecords (s s' : Tables) : Prop where
  chainRows : s'.chainRows = s.chainRows
  previews : s'.previews = s.previews

theorem Tables.SameRecords.refl (s : Tables) : s.SameRecords s := ⟨rfl, rfl⟩

theorem Tables.SameRecords.trans {s₁ s₂ s₃ : Tables} (h : s₁.SameRecords s₂)
    (h' : s₂.SameRecords s₃) : s₁.SameRecords s₃ :=
  ⟨h'.chainRows.trans h.chainRows, h'.previews.trans h.previews⟩

theorem sameRecords_setStatusWhere (s : Tables) (p : TransactionRow → Bool) (status : JobState) :
    s.SameRecords (s.setStatusWhere p status).2 :=
  ⟨chainRows_setStatusWhere s p status, rfl⟩

theorem sameRecords_revokeInTx {who : String} {b : Bool}
    (h : revokeUnconsumedApprovalInTx clock key t who s = .ok (b, s')) : s.SameRecords s' := by
  unfold revokeUnconsumedApprovalInTx at h
  simp only at h
  split_ifs at h
  · split at h
    · cases h
    · obtain ⟨-, rfl⟩ := Prod.mk.inj (Except.ok.inj h)
      exact ⟨rfl, rfl⟩
  · obtain ⟨-, rfl⟩ := Prod.mk.inj (Except.ok.inj h)
    exact ⟨rfl, rfl⟩

theorem sameRecords_cancelInTx {who : String} {n : ℕ}
    (h : cancelQueuedInTx clock key t who s = .ok (n, s')) : s.SameRecords s' := by
  unfold cancelQueuedInTx at h
  simp only at h
  have hstatus := sameRecords_setStatusWhere s
    (fun r => r.transactionId == t && r.status == .queued) .canceled
  split_ifs at h
  · obtain ⟨⟨b, s₁⟩, hrevoke, h⟩ := exists_of_bind_eq_ok h
    obtain ⟨-, rfl⟩ := Prod.mk.inj (Except.ok.inj h)
    have hrevoked := hstatus.trans (sameRecords_revokeInTx hrevoke)
    exact ⟨hrevoked.chainRows, hrevoked.previews⟩
  · obtain ⟨-, rfl⟩ := Prod.mk.inj (Except.ok.inj h)
    exact hstatus

theorem sameRecords_cancelEach {ids : List String} {k n : ℕ}
    (h : cancelEach clock key ids k s = .ok (n, s')) : s.SameRecords s' := by
  induction ids generalizing k s with
  | nil =>
    obtain ⟨-, rfl⟩ := Prod.mk.inj (Except.ok.inj h)
    exact .refl s
  | cons id ids ih =>
    obtain ⟨⟨m, s₁⟩, hcancel, hrest⟩ := exists_of_bind_eq_ok h
    exact (sameRecords_cancelInTx hcancel).trans (ih hrest)

theorem sameRecords_updateStatus {new : JobState} {u : Unit}
    (h : updateStatus env clock t new s = .ok (u, s')) : s.SameRecords s' := by
  unfold updateStatus at h
  split at h
  · cases h
  · simp only at h
    split_ifs at h
    obtain ⟨key, -, h⟩ := exists_of_bind_eq_ok h
    obtain ⟨-, rfl⟩ := Prod.mk.inj (Except.ok.inj h)
    exact ⟨chainRows_setStatusWhere s _ _, rfl⟩

theorem sameRecords_failEach {ids : List String} : s.SameRecords (failEach env clock ids s).2 := by
  induction ids generalizing s with
  | nil => exact .refl s
  | cons id ids ih =>
    unfold failEach
    split
    · exact .refl s
    · rename_i s₁ hupdate
      exact (sameRecords_updateStatus hupdate).trans ih

theorem sameRecords_reconcilePages {rounds total : ℕ} :
    s.SameRecords (reconcilePages env clock rounds total s).2 := by
  induction rounds generalizing total s with
  | zero => exact .refl s
  | succ rounds ih =>
    unfold reconcilePages
    have hpage : s.SameRecords (failEach env clock s.runningPage s).2 := sameRecords_failEach
    simp only
    split
    · exact .refl s
    · split
      · rename_i hfail
        rw [hfail] at hpage
        exact hpage
      · rename_i hfail
        rw [hfail] at hpage
        split
        · exact hpage
        · exact hpage.trans ih

theorem sameRecords_approve {approver : CallerPrincipal} {receipt : Option String}
    (h : approveTransaction env clock t approver s = .ok (receipt, s')) : s.SameRecords s' := by
  obtain ⟨key, -, h⟩ := exists_of_bind_eq_ok h
  split at h
  · obtain ⟨-, rfl⟩ := Prod.mk.inj (Except.ok.inj h)
    exact .refl s
  simp only at h
  split at h
  · cases h
  split_ifs at h
  · obtain ⟨-, rfl⟩ := Prod.mk.inj (Except.ok.inj h)
    exact ⟨rfl, rfl⟩
  · obtain ⟨-, rfl⟩ := Prod.mk.inj (Except.ok.inj h)
    exact ⟨rfl, rfl⟩

theorem sameRecords_claim {digest : String} {executor : CallerPrincipal} {b : Bool}
    (h : claimApprovedForExecution env clock t digest executor s = .ok (b, s')) :
    s.SameRecords s' := by
  obtain ⟨key, -, h⟩ := exists_of_bind_eq_ok h
  simp only at h
  split_ifs at h
  · obtain ⟨-, rfl⟩ := Prod.mk.inj (Except.ok.inj h)
    exact ⟨chainRows_setStatusWhere s _ _, rfl⟩
  · obtain ⟨-, rfl⟩ := Prod.mk.inj (Except.ok.inj h)
    exact sameRecords_setStatusWhere s _ _

/-- An operation keeps the chained rows or appends the next one. -/
theorem appended_apply (hkey : env.auditKey = some key) (hs : Appended key s.chainRows)
    (op : StoreOp) : Appended key (op.apply env clock s).chainRows := by
  have hcommitted {α : Type} {r : Except StoreError (α × Tables)}
      (h : ∀ a s', r = .ok (a, s') → Appended key s'.chainRows) :
      Appended key (committed s r).chainRows := by
    cases r with
    | error e => exact hs
    | ok r => exact h r.1 r.2 rfl
  have hkept {α : Type} {r : Except StoreError (α × Tables)}
      (h : ∀ a s', r = .ok (a, s') → s.SameRecords s') :
      Appended key (committed s r).chainRows :=
    hcommitted fun a s' hr => by rw [(h a s' hr).chainRows]; exact hs
  have hrequire {message : String} {k : AuditKey} (h : requireKey env message = .ok k) :
      k = key := by
    rw [requireKey, hkey] at h
    exact (Except.ok.inj h).symm
  cases op with
  | record id tx =>
    refine hcommitted fun _ _ h => ?_
    obtain ⟨k, hk, h⟩ := exists_of_bind_eq_ok h
    obtain rfl := hrequire hk
    exact appended_insertTransaction hs h
  | recordPreviewed id tx preview =>
    refine hcommitted fun _ _ h => ?_
    obtain ⟨k, hk, h⟩ := exists_of_bind_eq_ok h
    obtain rfl := hrequire hk
    obtain ⟨⟨rec_, s₁⟩, hinsert, h⟩ := exists_of_bind_eq_ok h
    obtain ⟨-, rfl⟩ := Prod.mk.inj (Except.ok.inj h)
    have happended : Appended k s₁.chainRows := appended_insertTransaction hs hinsert
    exact happended
  | approve id approver => exact hkept fun _ _ => sameRecords_approve
  | revoke id revoker =>
    refine hkept fun _ _ h => ?_
    obtain ⟨k, -, h⟩ := exists_of_bind_eq_ok h
    exact sameRecords_revokeInTx h
  | claim id digest executor => exact hkept fun _ _ => sameRecords_claim
  | updateStatus id status => exact hkept fun _ _ => sameRecords_updateStatus
  | cancelQueued id canceller =>
    refine hkept fun _ _ h => ?_
    obtain ⟨k, -, h⟩ := exists_of_bind_eq_ok h
    obtain ⟨⟨n, s₁⟩, hcancel, h⟩ := exists_of_bind_eq_ok h
    obtain ⟨-, rfl⟩ := Prod.mk.inj (Except.ok.inj h)
    exact sameRecords_cancelInTx hcancel
  | cleanup =>
    refine hkept fun _ _ h => ?_
    obtain ⟨k, -, h⟩ := exists_of_bind_eq_ok h
    exact sameRecords_cancelEach h
  | reconcile =>
    change Appended key (reconcilePages env clock (s.transactions.length + 1) 0 s).2.chainRows
    rw [sameRecords_reconcilePages.chainRows]
    exact hs

end

/-- **The store writes the chain it verifies.** After every sequence of operations on a new
store opened with `key`, the transaction rows are a chain appended under `key`. -/
theorem appended_run {env : StoreEnv} {key : AuditKey} (hkey : env.auditKey = some key)
    (ops : List (Clock × StoreOp)) : Appended key (run env ops).chainRows := by
  induction ops using List.reverseRecOn with
  | nil => exact .nil
  | append_singleton ops op ih =>
    rw [run_concat]
    exact appended_apply hkey ih op.2

end Sysknife.Store
