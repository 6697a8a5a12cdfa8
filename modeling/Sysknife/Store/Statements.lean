import Sysknife.Lib.Stmt
import Sysknife.Store.Sqlite

/-!
# The SQLite store, statement by statement

`Sysknife.Store.Sqlite` takes an operation as one function on the tables. Here the operations
are programs of the statements the source issues on its connection, with `BEGIN` and `COMMIT`
where the source has them: what is read before the database transaction is opened, which
checks stand between two writes, and what is returned after the commit. Every statement may
fail, with any error, and each runs at its own moment.

* `WriteOp.answers`: when no statement fails and all run at one moment, an operation is the
  function of `Sysknife.Store.Sqlite`.
* `WriteOp.atomic`: whatever fails and whenever, an operation leaves no database transaction
  open, and one that fails, or that reports that nothing was changed, leaves the tables as
  they were.

Opening the database and setting its pragmas is one statement that may fail. A failed `COMMIT`
commits nothing: the connection rolls back when the transaction value is dropped.
-/

namespace Sysknife.Store.Sqlite

open Audit Stmt

/-- Programs on a connection of the store. -/
abbrev Sql (α : Type) : Type := Stmt Clock StoreError Tables α

/-! ### The programs -/

/-- Open the database. -/
def connection : Sql Unit := query fun _ _ => ()

/-- `SELECT seq, chain_hash FROM transactions ORDER BY seq DESC LIMIT 1` -/
def nextSeqAndPrevHash : Sql (ℕ × String) :=
  query fun _ s =>
    let chainRows := s.transactions.map TransactionRow.toChainRow
    (nextSeq chainRows, tipHash chainRows)

/-- `SELECT chain_hash FROM audit_events ORDER BY seq DESC LIMIT 1` -/
def eventChainTip : Sql (Option String) := query fun _ s => s.eventChainTip

/-- `SELECT strftime('%Y-%m-%dT%H:%M:%fZ', 'now')` -/
def now : Sql String := query fun clock _ => clock.text

/-- Append one signed event: three reads and an `INSERT`. -/
def appendEvent (key : AuditKey) (kind : AuditEventKind) (transactionId receiptDigest : String)
    (identity : EventIdentity) : Sql Unit := do
  let prevChainHash := (← eventChainTip).getD ""
  let seq ← query fun _ s => (s.events.getLast?.map EventRow.seq).getD 0 + 1
  let createdAt ← now
  let content : EventContent :=
    ⟨seq, "v1", kind, transactionId, receiptDigest, createdAt, identity⟩
  let chainHash := key.eventHash content prevChainHash
  let storedPrincipal :=
    match identity with
    | .v2 callerPrincipal => some callerPrincipal
    | .legacyV1 => none
  let row : EventRow := ⟨seq, "v1", kind.asStr, transactionId, receiptDigest, createdAt,
    prevChainHash, chainHash, identity.version, storedPrincipal⟩
  write fun _ s => ((), { s with events := s.events ++ [row] })

section Operations

variable (env : StoreEnv)

/-- The key of a store opened for writing. -/
def requireKey (message : String) : Sql AuditKey :=
  match env.auditKey with
  | some key => pure key
  | none => fail (.auditChainMissing message)

/-- The row `insertTransaction` writes, from what it has read. -/
def rowFrom (key : AuditKey) (transactionId : String) (tx : NewTransaction) (seq : ℕ)
    (prevChainHash createdAt eventTip : String) : TransactionRow :=
  let approvalId := some (approvalCommitment env key transactionId tx.requestHash)
  let identity :=
    ChainIdentity.v4 tx.callerRole.asStr eventTip tx.callerPrincipal.asSignedStr
  let content : ChainContent :=
    ⟨seq, "v1", transactionId, tx.requestId, tx.requestHash, tx.actionName, tx.riskLevel,
      tx.summary, approvalId, Value.renderStrings tx.warnings, createdAt, identity⟩
  { seq
    keyId := "v1"
    transactionId
    requestId := tx.requestId
    requestHash := tx.requestHash
    actionName := tx.actionName
    riskLevel := tx.riskLevel
    summary := tx.summary
    approvalId
    warningsJson := Value.renderStrings tx.warnings
    createdAt
    prevChainHash
    chainHash := key.chainHash content prevChainHash
    chainVersion := identity.version
    callerRole := some tx.callerRole.asStr
    eventTip := some eventTip
    callerPrincipal := some tx.callerPrincipal.asSignedStr
    warnings := tx.warnings
    status := .queued }

/-- Insert the row of a new transaction; its identifier is the primary key. -/
def insertTransaction (key : AuditKey) (transactionId : String) (tx : NewTransaction) :
    Sql TransactionRecord := do
  let (seq, prevChainHash) ← nextSeqAndPrevHash
  let createdAt ← now
  let eventTip := (← eventChainTip).getD ""
  let row := rowFrom env key transactionId tx seq prevChainHash createdAt eventTip
  exec fun _ s =>
    if (s.findTransaction transactionId).isSome then
      .error (.sqlite "UNIQUE constraint failed: transactions.transaction_id")
    else .ok ((), { s with transactions := s.transactions ++ [row] })
  pure row.toRecord

/-- `INSERT INTO transaction_previews` -/
def insertPreview (transactionId : String) (preview : PreviewEnvelope) : Sql Unit :=
  write fun _ s => ((), { s with previews := s.previews ++ [(transactionId, preview)] })

/-- The shared body of `record` and `recordPreviewed`: what `inTx` does is committed together
with the row. -/
def recordWith (transactionId : String) (tx : NewTransaction)
    (inTx : TransactionRecord → Sql Unit) : Sql TransactionRecord := do
  let key ← requireKey env "this TransactionStore was opened read-only; cannot record"
  connection
  transaction do
    let inserted ← insertTransaction env key transactionId tx
    inTx inserted
    pure inserted

/-- Record a transaction. -/
def record (transactionId : String) (tx : NewTransaction) : Sql TransactionRecord :=
  recordWith env transactionId tx fun _ => pure ()

/-- Record a transaction together with its preview. -/
def recordPreviewed (transactionId : String) (tx : NewTransaction) (preview : PreviewEnvelope) :
    Sql TransactionRecord :=
  recordWith env transactionId tx fun inserted => insertPreview inserted.transactionId preview

/-- Look up one transaction, on a connection of its own. -/
def get (transactionId : String) : Sql (Option TransactionRecord) := do
  connection
  query fun _ s => s.get transactionId

/-- Move a transaction's status along the transition table. The status is read before the
database transaction and compared again by the `UPDATE`. -/
def updateStatus (transactionId : String) (newStatus : JobState) : Sql Unit := do
  connection
  let currentStatus ← query fun _ s => (s.findTransaction transactionId).map (·.status)
  match currentStatus with
  | none => fail (.notFound transactionId)
  | some current =>
    if !current.allowedTransition newStatus then fail (.invalidTransition current newStatus)
    else transaction do
      let rowsAffected ← write fun _ s => s.setStatusWhere
        (fun r => r.transactionId == transactionId && r.status == current) newStatus
      if rowsAffected = 0 then fail (.concurrentStatusChange transactionId)
      else
        let key ← requireKey env
          "update_status has no signing key, so the outcome could not be chained"
        appendEvent key (.ofJobState newStatus) transactionId "" .legacyV1

/-- `INSERT INTO transaction_approvals … SELECT … FROM transactions WHERE …` -/
def insertApproval (transactionId receiptDigest : String) : Sql ℕ :=
  write fun clock s =>
    let selected := s.transactions.filter fun r =>
      r.transactionId == transactionId && r.status == .queued &&
        withinTtl env clock r.createdAt &&
        (s.findApproval transactionId).isNone
    (selected.length, { s with
      approvals := s.approvals ++ selected.map fun r => ⟨r.transactionId, receiptDigest, none⟩ })

/-- Attach the approval receipt to a fresh queued preview. -/
def approveTransaction (transactionId : String) (approver : CallerPrincipal) :
    Sql (Option String) := do
  let key ← requireKey env "this TransactionStore was opened read-only; cannot approve"
  match ← get transactionId with
  | none => pure none
  | some rec_ =>
    let receipt := key.approvalReceipt transactionId rec_.requestHash
    let receiptDigest := approvalReceiptDigest env receipt
    match rec_.approvalId with
    | none =>
      fail (.databaseInvariant
        ("transaction " ++ transactionId ++ " has no signed approval commitment"))
    | some committedDigest =>
      if receiptDigest ≠ committedDigest then
        fail (.databaseInvariant ("transaction " ++ transactionId ++
          " approval commitment does not match its signed preview"))
      else
        connection
        transaction do
          let rowsAffected ← insertApproval env transactionId receiptDigest
          if 0 < rowsAffected then
            appendEvent key .approvalGranted transactionId receiptDigest
              (.v2 approver.asSignedStr)
            pure (some receipt)
          else pure none

/-- Take back an approval that was not spent, inside an open database transaction. -/
def revokeUnconsumedApprovalInTx (key : AuditKey) (transactionId revokerSigned : String) :
    Sql Bool := do
  let digest ← query fun _ s =>
    (s.approvals.find? (ApprovalRow.unconsumedOf transactionId)).map ApprovalRow.receiptDigest
  let rowsAffected ← write fun _ s =>
    let deleted := Table.deleteWhere (ApprovalRow.unconsumedOf transactionId) s.approvals
    (deleted.1, { s with approvals := deleted.2 })
  if 0 < rowsAffected then
    match digest with
    | none =>
      fail (.databaseInvariant
        ("revoked an approval for " ++ transactionId ++ " that had no receipt digest"))
    | some digest =>
      appendEvent key .approvalRevoked transactionId digest (.v2 revokerSigned)
      pure true
  else pure false

/-- Take back an approval that could not be delivered. -/
def revokeUnconsumedApproval (transactionId : String) (revoker : CallerPrincipal) :
    Sql Bool := do
  let key ← requireKey env "this TransactionStore was opened read-only; cannot revoke"
  connection
  transaction (revokeUnconsumedApprovalInTx key transactionId revoker.asSignedStr)

/-- Spend an approval and start running, in one database transaction. -/
def claimApprovedForExecution (transactionId receiptDigest : String)
    (executor : CallerPrincipal) : Sql Bool := do
  let key ← requireKey env "this TransactionStore was opened read-only; cannot claim"
  connection
  transaction do
    let rowsAffected ← write fun clock s => s.setStatusWhere
      (fun r => r.transactionId == transactionId && r.status == .queued &&
        withinTtl env clock r.createdAt &&
        s.approvals.any fun a =>
          a.transactionId == transactionId && a.receiptDigest == receiptDigest &&
            a.consumedAt.isNone)
      .running
    if 0 < rowsAffected then
      write fun clock s => ((), { s with
        approvals := (Table.updateWhere (ApprovalRow.unconsumedOf transactionId)
          (fun a => { a with consumedAt := some clock.datetime }) s.approvals).2 })
      appendEvent key .approvalConsumed transactionId receiptDigest (.v2 executor.asSignedStr)
      appendEvent key .statusRunning transactionId "" .legacyV1
      pure true
    else pure false

/-- Cancel one transaction if it is still queued, inside an open database transaction. -/
def cancelQueuedInTx (key : AuditKey) (transactionId cancellerSigned : String) : Sql ℕ := do
  let rowsAffected ← write fun _ s => s.setStatusWhere
    (fun r => r.transactionId == transactionId && r.status == .queued) .canceled
  if 0 < rowsAffected then
    let _ ← revokeUnconsumedApprovalInTx key transactionId cancellerSigned
    appendEvent key .statusCanceled transactionId "" .legacyV1
    pure rowsAffected
  else pure 0

/-- Cancel one still-queued transaction on a caller's request. -/
def cancelQueued (transactionId : String) (canceller : CallerPrincipal) : Sql Bool := do
  let key ← requireKey env "this TransactionStore was opened read-only; cannot cancel"
  connection
  transaction do
    let rowsAffected ← cancelQueuedInTx key transactionId canceller.asSignedStr
    pure (decide (0 < rowsAffected))

/-- The loop of `cleanupStaleQueued` over the identifiers it selected. -/
def cancelEach (key : AuditKey) : List String → ℕ → Sql ℕ
  | [], canceled => pure canceled
  | id :: ids, canceled => do
    let rowsAffected ← cancelQueuedInTx key id CallerPrincipal.unattributed.asSignedStr
    cancelEach key ids (canceled + rowsAffected)

/-- Cancel every queued transaction older than the receipt's lifetime. -/
def cleanupStaleQueued : Sql ℕ := do
  let key ← requireKey env "this TransactionStore was opened read-only; cannot clean up"
  connection
  transaction do
    let staleIds ← query fun clock s => (s.transactions.filter fun r =>
      r.status == .queued && beyondTtl env clock r.createdAt).map (·.transactionId)
    cancelEach key staleIds 0

/-! ### What fails leaves no trace -/

theorem inside_appendEvent (key : AuditKey) (kind : AuditEventKind)
    (transactionId receiptDigest : String) (identity : EventIdentity) :
    Inside (appendEvent key kind transactionId receiptDigest identity) fun _ _ _ => True := by
  refine (inside_query _).bind_of (fun _ => ?_) fun _ _ _ _ _ _ h => h
  refine (inside_query _).bind_of (fun _ => ?_) fun _ _ _ _ _ _ h => h
  refine (inside_query _).bind_of (fun _ => ?_) fun _ _ _ _ _ _ h => h
  exact (inside_write _).mono fun _ _ _ _ => trivial

/-- Reading the key touches nothing. -/
theorem inside_requireKey (message : String) :
    Inside (requireKey env message) fun t _ t' => t' = t := by
  unfold requireKey
  cases env.auditKey with
  | none => exact inside_fail _ _
  | some key => exact (inside_pure key).mono fun _ _ _ h => h.2

theorem atomic_requireKey (message : String) :
    Atomic (requireKey env message) fun t _ t' => True ∧ t' = t := by
  unfold requireKey
  cases env.auditKey with
  | none => exact atomic_fail _ _
  | some key => exact (atomic_pure key).mono fun _ _ _ h => ⟨trivial, h.2⟩

theorem atomic_connection : Atomic connection fun t _ t' => True ∧ t' = t :=
  (atomic_query _).mono fun _ _ _ h => ⟨trivial, h.2⟩

theorem inside_insertTransaction (key : AuditKey) (transactionId : String)
    (tx : NewTransaction) :
    Inside (insertTransaction env key transactionId tx) fun _ _ _ => True := by
  refine (inside_query _).bind_of (fun p => ?_) fun _ _ _ _ _ _ h => h
  refine (inside_query _).bind_of (fun _ => ?_) fun _ _ _ _ _ _ h => h
  refine (inside_query _).bind_of (fun _ => ?_) fun _ _ _ _ _ _ h => h
  refine (inside_exec _).bind_of (fun _ => ?_) fun _ _ _ _ _ _ h => h
  exact (inside_pure _).mono fun _ _ _ _ => trivial

/-- A status update that hits no row leaves the tables alone. -/
theorem inside_setStatusWhere (p : Clock → Tables → TransactionRow → Bool) (status : JobState) :
    Inside (write fun clock s => s.setStatusWhere (p clock s) status : Sql ℕ)
      fun t n t' => n = 0 → t' = t := by
  refine (inside_write _).mono fun t n t' ⟨clock, h⟩ hn => ?_
  obtain ⟨hcount, ht⟩ := Prod.mk.inj h
  rw [← ht, Table.updateWhere_of_count_zero (hcount.trans hn)]

/-- The shape of a conditional write: a statement counts the rows it changed, and only when
there are some does the rest run, to an answer that is not `idle`. -/
theorem inside_guarded {α : Type} {m : Sql ℕ} {rest : ℕ → Sql α} {idle : α} {P : α → Prop}
    (hm : Inside m fun t n t' => n = 0 → t' = t)
    (hrest : ∀ n, 0 < n → Inside (rest n) fun _ a _ => P a) :
    Inside (m >>= fun n => if 0 < n then rest n else pure idle)
      fun t a t' => P a ∨ (a = idle ∧ t' = t) := by
  refine hm.bind_of (R := fun n u a t' => P a ∨ (n = 0 ∧ a = idle ∧ t' = u)) (fun n => ?_) ?_
  · by_cases hn : 0 < n
    · rw [if_pos hn]
      exact (hrest n hn).mono fun _ _ _ h => .inl h
    · rw [if_neg hn]
      exact (inside_pure idle).mono fun _ _ _ h => .inr ⟨by omega, h⟩
  · rintro t n u a t' hQ (h | ⟨hn, ha, ht⟩)
    · exact .inl h
    · exact .inr ⟨ha, ht.trans (hQ hn)⟩

theorem inside_revokeUnconsumedApprovalInTx (key : AuditKey)
    (transactionId revokerSigned : String) :
    Inside (revokeUnconsumedApprovalInTx key transactionId revokerSigned)
      fun t revoked t' => revoked = true ∨ (revoked = false ∧ t' = t) := by
  refine (inside_query _).bind_of
    (R := fun _ u b t' => b = true ∨ (b = false ∧ t' = u)) (fun digest => ?_) ?_
  · refine inside_guarded ?_ fun n _ => ?_
    · refine (inside_write _).mono fun t n t' ⟨clock, h⟩ hn => ?_
      obtain ⟨hcount, ht⟩ := Prod.mk.inj h
      rw [← ht, Table.deleteWhere_of_count_zero (hcount.trans hn)]
    · cases digest with
      | none => exact inside_fail _ _
      | some digest =>
        refine (inside_appendEvent _ _ _ _ _).bind_of (fun _ => inside_pure true) ?_
        exact fun _ _ _ _ _ _ h => h.1
  · rintro t d u b t' ⟨-, rfl⟩ h
    exact h

theorem inside_cancelQueuedInTx (key : AuditKey) (transactionId cancellerSigned : String) :
    Inside (cancelQueuedInTx key transactionId cancellerSigned)
      fun t n t' => 0 < n ∨ (n = 0 ∧ t' = t) := by
  refine inside_guarded (inside_setStatusWhere _ _) fun n hn => ?_
  refine (inside_revokeUnconsumedApprovalInTx _ _ _).bind_of (fun _ => ?_)
    fun _ _ _ _ _ _ h => h
  refine (inside_appendEvent _ _ _ _ _).bind_of (fun _ => inside_pure n) ?_
  intro _ _ _ m _ _ h
  rwa [h.1]

/-- The sweep's count says whether it changed anything: it grows with every cancellation. -/
theorem inside_cancelEach (key : AuditKey) (ids : List String) (canceled : ℕ) :
    Inside (cancelEach key ids canceled)
      fun t n t' => canceled ≤ n ∧ (n = canceled → t' = t) := by
  induction ids generalizing canceled with
  | nil =>
    refine (inside_pure canceled).mono ?_
    rintro t n t' ⟨rfl, rfl⟩
    exact ⟨le_rfl, fun _ => rfl⟩
  | cons id ids ih =>
    refine (inside_cancelQueuedInTx _ _ _).bind_of (fun m => ih (canceled + m)) ?_
    rintro t m u n t' hm ⟨hle, hsame⟩
    refine ⟨by omega, fun hn => ?_⟩
    rcases hm with hpos | ⟨rfl, rfl⟩
    · omega
    · exact hsame hn

theorem atomic_recordWith (transactionId : String) (tx : NewTransaction)
    {inTx : TransactionRecord → Sql Unit} (h : ∀ r, Inside (inTx r) fun _ _ _ => True) :
    Atomic (recordWith env transactionId tx inTx) fun _ _ _ => True := by
  refine (atomic_requireKey env _).bind_of_reads fun key => ?_
  refine atomic_connection.bind_of_reads fun _ => Inside.atomic_transaction ?_
  refine (inside_insertTransaction env _ _ _).bind_of (fun r => ?_) fun _ _ _ _ _ _ h => h
  refine (h r).bind_of (fun _ => ?_) fun _ _ _ _ _ _ h => h
  exact (inside_pure r).mono fun _ _ _ _ => trivial

theorem atomic_updateStatus (transactionId : String) (newStatus : JobState) :
    Atomic (updateStatus env transactionId newStatus) fun _ _ _ => True := by
  refine atomic_connection.bind_of_reads fun _ => ?_
  refine (atomic_query _).bind_of_reads fun current => ?_
  cases current with
  | none => exact atomic_fail _ _
  | some current =>
    dsimp only
    split
    · exact atomic_fail _ _
    · refine Inside.atomic_transaction ?_
      refine (inside_setStatusWhere _ _).bind_of (fun n => ?_) fun _ _ _ _ _ _ h => h
      split
      · exact inside_fail _ _
      · refine (inside_requireKey env _).bind_of (fun key => ?_) fun _ _ _ _ _ _ h => h
        exact inside_appendEvent _ _ _ _ _

theorem inside_insertApproval (transactionId receiptDigest : String) :
    Inside (insertApproval env transactionId receiptDigest) fun t n t' => n = 0 → t' = t := by
  refine (inside_write _).mono fun t n t' ⟨clock, h⟩ hn => ?_
  obtain ⟨hcount, ht⟩ := Prod.mk.inj h
  rw [← ht, List.eq_nil_of_length_eq_zero (hcount.trans hn), List.map_nil, List.append_nil]

theorem atomic_approveTransaction (transactionId : String) (approver : CallerPrincipal) :
    Atomic (approveTransaction env transactionId approver)
      fun t receipt t' => receipt.isSome ∨ (receipt = none ∧ t' = t) := by
  refine (atomic_requireKey env _).bind_of_reads fun key => ?_
  have hget : Atomic (get transactionId) fun t _ t' => True ∧ t' = t :=
    atomic_connection.bind_of_reads fun _ => (atomic_query _).mono fun _ _ _ h => ⟨trivial, h.2⟩
  refine hget.bind_of_reads fun found => ?_
  cases found with
  | none => exact (atomic_pure none).mono fun _ _ _ h => .inr h
  | some rec_ =>
    dsimp only
    cases rec_.approvalId with
    | none => exact atomic_fail _ _
    | some committedDigest =>
      dsimp only
      split
      · exact atomic_fail _ _
      · refine atomic_connection.bind_of_reads fun _ => Inside.atomic_transaction ?_
        refine inside_guarded (inside_insertApproval env _ _) fun n _ => ?_
        refine (inside_appendEvent _ _ _ _ _).bind_of (fun _ => inside_pure _) ?_
        intro _ _ _ receipt _ _ h
        rw [h.1]
        rfl

theorem atomic_revokeUnconsumedApproval (transactionId : String) (revoker : CallerPrincipal) :
    Atomic (revokeUnconsumedApproval env transactionId revoker)
      fun t revoked t' => revoked = true ∨ (revoked = false ∧ t' = t) := by
  refine (atomic_requireKey env _).bind_of_reads fun key => ?_
  refine atomic_connection.bind_of_reads fun _ => ?_
  exact (inside_revokeUnconsumedApprovalInTx _ _ _).atomic_transaction

theorem atomic_claimApprovedForExecution (transactionId receiptDigest : String)
    (executor : CallerPrincipal) :
    Atomic (claimApprovedForExecution env transactionId receiptDigest executor)
      fun t claimed t' => claimed = true ∨ (claimed = false ∧ t' = t) := by
  refine (atomic_requireKey env _).bind_of_reads fun key => ?_
  refine atomic_connection.bind_of_reads fun _ => Inside.atomic_transaction ?_
  refine inside_guarded (inside_setStatusWhere _ _) fun n _ => ?_
  refine (inside_write _).bind_of (fun _ => ?_) fun _ _ _ _ _ _ h => h
  refine (inside_appendEvent _ _ _ _ _).bind_of (fun _ => ?_) fun _ _ _ _ _ _ h => h
  refine (inside_appendEvent _ _ _ _ _).bind_of (fun _ => inside_pure true) ?_
  exact fun _ _ _ _ _ _ h => h.1

theorem atomic_cancelQueued (transactionId : String) (canceller : CallerPrincipal) :
    Atomic (cancelQueued env transactionId canceller)
      fun t canceled t' => canceled = true ∨ (canceled = false ∧ t' = t) := by
  refine (atomic_requireKey env _).bind_of_reads fun key => ?_
  refine atomic_connection.bind_of_reads fun _ => Inside.atomic_transaction ?_
  refine (inside_cancelQueuedInTx _ _ _).bind_of (fun n => inside_pure _) ?_
  rintro t n u canceled t' hn ⟨rfl, rfl⟩
  rcases hn with hpos | ⟨rfl, rfl⟩
  · exact .inl (decide_eq_true hpos)
  · exact .inr ⟨rfl, rfl⟩

theorem atomic_cleanupStaleQueued :
    Atomic (cleanupStaleQueued env) fun t canceled t' => canceled = 0 → t' = t := by
  refine (atomic_requireKey env _).bind_of_reads fun key => ?_
  refine atomic_connection.bind_of_reads fun _ => Inside.atomic_transaction ?_
  refine (inside_query _).bind_of (fun ids => inside_cancelEach key ids 0) ?_
  rintro t ids u n t' ⟨-, rfl⟩ h
  exact h.2

end Operations

/-! ### Operations and their answers -/

/-- The operations that write in one database transaction. -/
inductive WriteOp
  | record (transactionId : String) (tx : NewTransaction)
  | recordPreviewed (transactionId : String) (tx : NewTransaction) (preview : PreviewEnvelope)
  | approve (transactionId : String) (approver : CallerPrincipal)
  | revoke (transactionId : String) (revoker : CallerPrincipal)
  | claim (transactionId receiptDigest : String) (executor : CallerPrincipal)
  | updateStatus (transactionId : String) (newStatus : JobState)
  | cancelQueued (transactionId : String) (canceller : CallerPrincipal)
  | cleanup

/-- What an operation that did not fail answers. -/
inductive WriteAnswer
  | recorded (transaction : TransactionRecord)
  | moved
  | receipt (minted : Option String)
  | changed (did : Bool)
  | canceled (count : ℕ)
  deriving DecidableEq, Repr

/-- The answers that report that nothing was changed. -/
def WriteAnswer.nothingChanged : WriteAnswer → Bool
  | .recorded _ => false
  | .moved => false
  | .receipt minted => minted.isNone
  | .changed did => !did
  | .canceled count => count == 0

/-- The statements of an operation. -/
def WriteOp.program (env : StoreEnv) : WriteOp → Sql WriteAnswer
  | .record id tx => .recorded <$> Sqlite.record env id tx
  | .recordPreviewed id tx preview => .recorded <$> Sqlite.recordPreviewed env id tx preview
  | .approve id approver => .receipt <$> approveTransaction env id approver
  | .revoke id revoker => .changed <$> revokeUnconsumedApproval env id revoker
  | .claim id digest executor => .changed <$> claimApprovedForExecution env id digest executor
  | .updateStatus id status => (fun _ => .moved) <$> Sqlite.updateStatus env id status
  | .cancelQueued id canceller => .changed <$> Sqlite.cancelQueued env id canceller
  | .cleanup => .canceled <$> cleanupStaleQueued env

/-- Every operation is atomic, and the answers that say so leave the tables alone. -/
theorem WriteOp.atomic (env : StoreEnv) (op : WriteOp) :
    Atomic (op.program env) fun t a t' => a.nothingChanged = true → t' = t := by
  cases op with
  | record id tx =>
    have h := atomic_recordWith env id tx fun _ => (inside_pure ()).mono fun _ _ _ _ => trivial
    refine (h.map WriteAnswer.recorded).mono ?_
    rintro t _ t' ⟨r, rfl, -⟩ hidle
    cases hidle
  | recordPreviewed id tx preview =>
    have h := atomic_recordWith env id tx fun r =>
      (inside_write _).mono (m := insertPreview r.transactionId preview) fun _ _ _ _ => trivial
    refine (h.map WriteAnswer.recorded).mono ?_
    rintro t _ t' ⟨r, rfl, -⟩ hidle
    cases hidle
  | approve id approver =>
    refine ((atomic_approveTransaction env id approver).map WriteAnswer.receipt).mono ?_
    rintro t _ t' ⟨minted, rfl, hsome | ⟨-, hsame⟩⟩ hidle
    · rw [Option.isSome_iff_ne_none] at hsome
      exact absurd (Option.isNone_iff_eq_none.mp hidle) hsome
    · exact hsame
  | revoke id revoker =>
    refine ((atomic_revokeUnconsumedApproval env id revoker).map WriteAnswer.changed).mono ?_
    rintro t _ t' ⟨b, rfl, rfl | ⟨-, hsame⟩⟩ hidle
    · cases hidle
    · exact hsame
  | claim id digest executor =>
    refine ((atomic_claimApprovedForExecution env id digest executor).map
      WriteAnswer.changed).mono ?_
    rintro t _ t' ⟨b, rfl, rfl | ⟨-, hsame⟩⟩ hidle
    · cases hidle
    · exact hsame
  | updateStatus id status =>
    refine ((atomic_updateStatus env id status).map fun _ => WriteAnswer.moved).mono ?_
    rintro t _ t' ⟨_, rfl, -⟩ hidle
    cases hidle
  | cancelQueued id canceller =>
    refine ((atomic_cancelQueued env id canceller).map WriteAnswer.changed).mono ?_
    rintro t _ t' ⟨b, rfl, rfl | ⟨-, hsame⟩⟩ hidle
    · cases hidle
    · exact hsame
  | cleanup =>
    refine ((atomic_cleanupStaleQueued env).map WriteAnswer.canceled).mono ?_
    rintro t _ t' ⟨n, rfl, h⟩ hidle
    exact h (by simpa [WriteAnswer.nothingChanged] using hidle)

/-- **Failed operations leave no trace.** On any tables, with statements failing wherever they
may and each at its own moment, an operation leaves no database transaction open; and if it
returns an error, or reports that nothing was changed, every table is as it was before. -/
theorem unchanged_of_failed (env : StoreEnv) (op : WriteOp) (w : ℕ → Except StoreError Clock)
    (tables : Tables) (n : ℕ) :
    let out := op.program env w ⟨tables, none, n⟩
    out.2.working = none ∧
      ((∃ e, out.1 = .error e) ∨ (∃ a, out.1 = .ok a ∧ a.nothingChanged = true) →
        out.2.committed = tables) := by
  obtain ⟨r, tables', n', hrun, herror, hpost⟩ := op.atomic env w tables n
  intro out
  have hout : out = (r, ⟨tables', none, n'⟩) := hrun
  rw [hout]
  refine ⟨rfl, ?_⟩
  rintro (⟨e, he⟩ | ⟨a, ha, hidle⟩)
  · exact herror e he
  · exact hpost a ha hidle

/-- A row that is still queued, in a store whose key is missing. -/
def keylessRow : TransactionRow where
  seq := 1
  keyId := "v1"
  transactionId := "t1"
  requestId := "r1"
  requestHash := "h1"
  actionName := "SetHostname"
  riskLevel := .medium
  summary := "rename"
  approvalId := none
  warningsJson := "[]"
  createdAt := "2026-01-01T00:00:00.000Z"
  prevChainHash := ""
  chainHash := ""
  chainVersion := 4
  callerRole := some "admin"
  eventTip := some ""
  callerPrincipal := some "uid:0"
  warnings := []
  status := .queued

/-- A store opened read-only. -/
def keylessEnv : StoreEnv := ⟨none, id, fun _ => none⟩

/-- The `UPDATE` of a status hits the row before the key is found missing; the error takes it
back. -/
theorem keyless_update_unchanged :
    let out := (WriteOp.updateStatus "t1" .running).program keylessEnv
      (fun _ => .ok ⟨"now", "now", 0⟩) ⟨⟨[keylessRow], [], [], []⟩, none, 0⟩
    out.1 = .error (.auditChainMissing
        "update_status has no signing key, so the outcome could not be chained") ∧
      out.2.tick = 4 ∧ out.2.committed = ⟨[keylessRow], [], [], []⟩ := by
  refine ⟨rfl, rfl, ?_⟩
  exact (unchanged_of_failed keylessEnv (.updateStatus "t1" .running)
    (fun _ => .ok ⟨"now", "now", 0⟩) ⟨[keylessRow], [], [], []⟩ 0).2 (.inl ⟨_, rfl⟩)

/-! ### Undisturbed operations -/

section Undisturbed

variable (env : StoreEnv)

theorem computes_appendEvent (key : AuditKey) (kind : AuditEventKind)
    (transactionId receiptDigest : String) (identity : EventIdentity) :
    Computes (appendEvent key kind transactionId receiptDigest identity) fun clock s =>
      .ok ((), Store.appendEvent clock key kind transactionId receiptDigest identity s) := by
  refine ((computes_query _).bind fun _ => (computes_query _).bind fun _ =>
    (computes_query _).bind fun _ => computes_write _).congr fun clock s => ?_
  rfl

theorem computes_requireKey (message : String) :
    Computes (requireKey env message) fun _ s =>
      (Store.requireKey env message).map fun key => (key, s) := by
  unfold requireKey Store.requireKey
  cases env.auditKey with
  | none => exact computes_fail _
  | some key => exact computes_pure key

theorem answers_requireKey_bind {β : Type} (message : String) {k : AuditKey → Sql β}
    {g : AuditKey → Clock → Tables → Except StoreError (β × Tables)}
    (hk : ∀ key, Answers (k key) (g key)) :
    Answers (requireKey env message >>= k) fun clock s =>
      Store.requireKey env message >>= fun key => g key clock s := by
  unfold requireKey Store.requireKey
  cases env.auditKey with
  | none => exact answers_fail _
  | some key => exact hk key

theorem newRow_eq_rowFrom (clock : Clock) (key : AuditKey) (transactionId : String)
    (tx : NewTransaction) (s : Tables) :
    newRow env clock key transactionId tx s =
      rowFrom env key transactionId tx (nextSeq (s.transactions.map TransactionRow.toChainRow))
        (tipHash (s.transactions.map TransactionRow.toChainRow)) clock.text
        (s.eventChainTip.getD "") := rfl

theorem computes_insertTransaction (key : AuditKey) (transactionId : String)
    (tx : NewTransaction) :
    Computes (insertTransaction env key transactionId tx) fun clock s =>
      Store.insertTransaction env clock key transactionId tx s := by
  refine ((computes_query _).bind fun p => (computes_query _).bind fun _ =>
    (computes_query _).bind fun _ => (computes_exec _).bind fun _ =>
      computes_pure _).congr fun clock s => ?_
  simp only [Store.insertTransaction, newRow_eq_rowFrom]
  split_ifs <;> rfl

theorem computes_revokeUnconsumedApprovalInTx (key : AuditKey)
    (transactionId revokerSigned : String) :
    Computes (revokeUnconsumedApprovalInTx key transactionId revokerSigned) fun clock s =>
      Store.revokeUnconsumedApprovalInTx clock key transactionId revokerSigned s := by
  refine ((computes_query _).bind (g := fun digest clock s =>
    let deleted := Table.deleteWhere (ApprovalRow.unconsumedOf transactionId) s.approvals
    let s := { s with approvals := deleted.2 }
    if 0 < deleted.1 then
      digest.elim (.error (.databaseInvariant
          ("revoked an approval for " ++ transactionId ++ " that had no receipt digest")))
        fun digest => .ok (true, Store.appendEvent clock key .approvalRevoked transactionId
          digest (.v2 revokerSigned) s)
    else .ok (false, s)) fun digest => ?_).congr fun clock s => ?_
  -- the digest read first decides between the event and the broken invariant
  · cases digest with
    | none =>
      exact (computes_write _).bind fun n =>
        computes_ite (computes_fail _) (computes_pure false)
    | some digest =>
      exact (computes_write _).bind fun n =>
        computes_ite ((computes_appendEvent _ _ _ _ _).bind fun _ => computes_pure true)
          (computes_pure false)
  · rw [Store.revokeUnconsumedApprovalInTx]
    dsimp only
    cases s.approvals.find? (ApprovalRow.unconsumedOf transactionId) <;> rfl

theorem computes_cancelQueuedInTx (key : AuditKey) (transactionId cancellerSigned : String) :
    Computes (cancelQueuedInTx key transactionId cancellerSigned) fun clock s =>
      Store.cancelQueuedInTx clock key transactionId cancellerSigned s := by
  refine ((computes_write _).bind fun n => computes_ite
    ((computes_revokeUnconsumedApprovalInTx _ _ _).bind fun _ =>
      (computes_appendEvent _ _ _ _ _).bind fun _ => computes_pure n)
    (computes_pure 0)).congr fun clock s => ?_
  simp only [Store.cancelQueuedInTx]
  split_ifs with hn
  · cases Store.revokeUnconsumedApprovalInTx clock key transactionId cancellerSigned _ <;> rfl
  · rfl

theorem computes_cancelEach (key : AuditKey) (ids : List String) (canceled : ℕ) :
    Computes (cancelEach key ids canceled) fun clock s =>
      Store.cancelEach clock key ids canceled s := by
  induction ids generalizing canceled with
  | nil => exact computes_pure canceled
  | cons id ids ih =>
    refine ((computes_cancelQueuedInTx _ _ _).bind fun n => ih (canceled + n)).congr
      fun clock s => ?_
    rw [Store.cancelEach]
    cases Store.cancelQueuedInTx clock key id CallerPrincipal.unattributed.asSignedStr s <;> rfl

theorem answers_connection_bind {β : Type} {k : Unit → Sql β}
    {g : Clock → Tables → Except StoreError (β × Tables)} (hk : Answers (k ()) g) :
    Answers (connection >>= k) g :=
  answers_query_bind (fun _ _ => ()) fun _ => hk

theorem answers_get_bind {β : Type} (transactionId : String)
    {k : Option TransactionRecord → Sql β}
    {g : Option TransactionRecord → Clock → Tables → Except StoreError (β × Tables)}
    (hk : ∀ found, Answers (k found) (g found)) :
    Answers (get transactionId >>= k) fun clock s => g (s.get transactionId) clock s := by
  intro clock s n
  obtain ⟨n', hrun⟩ := hk (s.get transactionId) clock s (n + 2)
  exact ⟨n', hrun⟩

theorem answers_record (transactionId : String) (tx : NewTransaction) :
    Answers (record env transactionId tx) fun clock s =>
      Store.record env clock transactionId tx s := by
  refine answers_requireKey_bind env _ fun key => answers_connection_bind ?_
  refine ((computes_insertTransaction env _ _ _).bind fun r => (computes_pure ()).bind fun _ =>
    computes_pure r).answers_transaction.congr fun clock s => ?_
  cases Store.insertTransaction env clock key transactionId tx s <;> rfl

theorem answers_recordPreviewed (transactionId : String) (tx : NewTransaction)
    (preview : PreviewEnvelope) :
    Answers (recordPreviewed env transactionId tx preview) fun clock s =>
      Store.recordPreviewed env clock transactionId tx preview s := by
  refine answers_requireKey_bind env _ fun key => answers_connection_bind ?_
  refine ((computes_insertTransaction env _ _ _).bind fun r => (computes_write _).bind fun _ =>
    computes_pure r).answers_transaction.congr fun clock s => ?_
  simp only [Store.insertTransaction]
  split_ifs <;> rfl

theorem answers_updateStatus (transactionId : String) (newStatus : JobState) :
    Answers (updateStatus env transactionId newStatus) fun clock s =>
      Store.updateStatus env clock transactionId newStatus s := by
  refine answers_connection_bind ?_
  refine (answers_query_bind _ (g := fun current clock s =>
    current.elim (.error (.notFound transactionId)) fun current =>
      if !current.allowedTransition newStatus then .error (.invalidTransition current newStatus)
      else
        let written := s.setStatusWhere
          (fun r => r.transactionId == transactionId && r.status == current) newStatus
        if written.1 = 0 then .error (.concurrentStatusChange transactionId)
        else do
          let key ← Store.requireKey env
            "update_status has no signing key, so the outcome could not be chained"
          .ok ((), Store.appendEvent clock key (.ofJobState newStatus) transactionId "" .legacyV1
            written.2)) fun current => ?_).congr fun clock s => ?_
  · cases current with
    | none => exact answers_fail _
    | some current =>
      refine answers_ite (answers_fail _) ?_
      refine ((computes_write _).bind fun n => computes_ite (computes_fail _)
        ((computes_requireKey env _).bind fun key =>
          computes_appendEvent key _ _ _ _)).answers_transaction.congr fun clock s => ?_
      cases Store.requireKey env
        "update_status has no signing key, so the outcome could not be chained" <;> rfl
  · rw [Store.updateStatus]
    cases s.findTransaction transactionId <;> rfl

theorem answers_approveTransaction (transactionId : String) (approver : CallerPrincipal) :
    Answers (approveTransaction env transactionId approver) fun clock s =>
      Store.approveTransaction env clock transactionId approver s := by
  refine answers_requireKey_bind env _ fun key => ?_
  refine answers_get_bind transactionId (g := fun found clock s =>
    match found with
    | none => .ok (none, s)
    | some rec_ =>
      let receipt := key.approvalReceipt transactionId rec_.requestHash
      let receiptDigest := approvalReceiptDigest env receipt
      match rec_.approvalId with
      | none =>
        .error (.databaseInvariant
          ("transaction " ++ transactionId ++ " has no signed approval commitment"))
      | some committedDigest =>
        if receiptDigest ≠ committedDigest then
          .error (.databaseInvariant ("transaction " ++ transactionId ++
            " approval commitment does not match its signed preview"))
        else
          let selected := s.transactions.filter fun r =>
            r.transactionId == transactionId && r.status == .queued &&
              withinTtl env clock r.createdAt &&
              (s.findApproval transactionId).isNone
          let s := { s with
            approvals := s.approvals ++
              selected.map fun r => ⟨r.transactionId, receiptDigest, none⟩ }
          if 0 < selected.length then
            .ok (some receipt, Store.appendEvent clock key .approvalGranted transactionId
              receiptDigest (.v2 approver.asSignedStr) s)
          else .ok (none, s)) fun found => ?_
  cases found with
  | none => exact answers_pure none
  | some rec_ =>
    dsimp only
    cases rec_.approvalId with
    | none => exact answers_fail _
    | some committedDigest =>
      refine answers_ite (answers_fail _) (answers_connection_bind ?_)
      exact ((computes_write _).bind fun n => computes_ite
        ((computes_appendEvent _ _ _ _ _).bind fun _ => computes_pure _)
        (computes_pure _)).answers_transaction

theorem answers_revokeUnconsumedApproval (transactionId : String) (revoker : CallerPrincipal) :
    Answers (revokeUnconsumedApproval env transactionId revoker) fun clock s =>
      Store.revokeUnconsumedApproval env clock transactionId revoker s := by
  refine answers_requireKey_bind env _ fun key => answers_connection_bind ?_
  exact (computes_revokeUnconsumedApprovalInTx _ _ _).answers_transaction

theorem answers_claimApprovedForExecution (transactionId receiptDigest : String)
    (executor : CallerPrincipal) :
    Answers (claimApprovedForExecution env transactionId receiptDigest executor) fun clock s =>
      Store.claimApprovedForExecution env clock transactionId receiptDigest executor s := by
  refine answers_requireKey_bind env _ fun key => answers_connection_bind ?_
  refine ((computes_write _).bind fun n => computes_ite
    ((computes_write _).bind fun _ => (computes_appendEvent _ _ _ _ _).bind fun _ =>
      (computes_appendEvent _ _ _ _ _).bind fun _ => computes_pure true)
    (computes_pure false)).answers_transaction.congr fun clock s => ?_
  rfl

theorem answers_cancelQueued (transactionId : String) (canceller : CallerPrincipal) :
    Answers (cancelQueued env transactionId canceller) fun clock s =>
      Store.cancelQueued env clock transactionId canceller s := by
  refine answers_requireKey_bind env _ fun key => answers_connection_bind ?_
  refine ((computes_cancelQueuedInTx _ _ _).bind fun n =>
    computes_pure _).answers_transaction.congr fun clock s => ?_
  cases Store.cancelQueuedInTx clock key transactionId canceller.asSignedStr s <;> rfl

theorem answers_cleanupStaleQueued :
    Answers (cleanupStaleQueued env) fun clock s => Store.cleanupStaleQueued env clock s := by
  refine answers_requireKey_bind env _ fun key => answers_connection_bind ?_
  exact ((computes_query _).bind fun ids => computes_cancelEach key ids 0).answers_transaction

end Undisturbed

/-- An operation as one function on the tables. -/
def WriteOp.compute (env : StoreEnv) (clock : Clock) (s : Tables) :
    WriteOp → Except StoreError (WriteAnswer × Tables)
  | .record id tx => (Store.record env clock id tx s).map fun p => (.recorded p.1, p.2)
  | .recordPreviewed id tx preview =>
    (Store.recordPreviewed env clock id tx preview s).map fun p => (.recorded p.1, p.2)
  | .approve id approver =>
    (Store.approveTransaction env clock id approver s).map fun p => (.receipt p.1, p.2)
  | .revoke id revoker =>
    (Store.revokeUnconsumedApproval env clock id revoker s).map fun p => (.changed p.1, p.2)
  | .claim id digest executor =>
    (Store.claimApprovedForExecution env clock id digest executor s).map
      fun p => (.changed p.1, p.2)
  | .updateStatus id status =>
    (Store.updateStatus env clock id status s).map fun p => (.moved, p.2)
  | .cancelQueued id canceller =>
    (Store.cancelQueued env clock id canceller s).map fun p => (.changed p.1, p.2)
  | .cleanup => (Store.cleanupStaleQueued env clock s).map fun p => (.canceled p.1, p.2)

/-- The operation in a run of the store. -/
def WriteOp.toStoreOp : WriteOp → StoreOp
  | .record id tx => .record id tx
  | .recordPreviewed id tx preview => .recordPreviewed id tx preview
  | .approve id approver => .approve id approver
  | .revoke id revoker => .revoke id revoker
  | .claim id digest executor => .claim id digest executor
  | .updateStatus id status => .updateStatus id status
  | .cancelQueued id canceller => .cancelQueued id canceller
  | .cleanup => .cleanup

theorem committed_map {α β : Type} (s : Tables) (r : Except StoreError (α × Tables))
    (f : α → β) : committed s (r.map fun p => (f p.1, p.2)) = committed s r := by
  cases r <;> rfl

theorem WriteOp.committed_compute (env : StoreEnv) (clock : Clock) (s : Tables) (op : WriteOp) :
    committed s (op.compute env clock s) = op.toStoreOp.apply env clock s := by
  cases op with
  | updateStatus id status => exact committed_map s _ fun _ => WriteAnswer.moved
  | _ => exact committed_map s _ _

/-- The statements compute the function: when none of them fails and all run at one moment,
the operation answers as the function does, and commits the tables it gives. -/
theorem WriteOp.answers (env : StoreEnv) (op : WriteOp) :
    Answers (op.program env) fun clock s => op.compute env clock s := by
  cases op with
  | record id tx => exact (answers_record env id tx).map _
  | recordPreviewed id tx preview => exact (answers_recordPreviewed env id tx preview).map _
  | approve id approver => exact (answers_approveTransaction env id approver).map _
  | revoke id revoker => exact (answers_revokeUnconsumedApproval env id revoker).map _
  | claim id digest executor =>
    exact (answers_claimApprovedForExecution env id digest executor).map _
  | updateStatus id status => exact (answers_updateStatus env id status).map _
  | cancelQueued id canceller => exact (answers_cancelQueued env id canceller).map _
  | cleanup => exact (answers_cleanupStaleQueued env).map _

/-- The tables an undisturbed operation commits are those of the run it belongs to. -/
theorem WriteOp.committed_program (env : StoreEnv) (op : WriteOp) (clock : Clock)
    (tables : Tables) (n : ℕ) :
    (op.program env (fun _ => .ok clock) ⟨tables, none, n⟩).2.committed =
      op.toStoreOp.apply env clock tables := by
  obtain ⟨n', hrun⟩ := op.answers env clock tables n
  rw [hrun, ← op.committed_compute]
  dsimp only
  cases op.compute env clock tables <;> rfl

/-- The tables after operations that were served one after the other. -/
def served (env : StoreEnv) (ops : List (Clock × WriteOp)) : Tables :=
  ops.foldl (fun s op => (op.2.program env (fun _ => .ok op.1) ⟨s, none, 0⟩).2.committed) .empty

theorem served_concat (env : StoreEnv) (ops : List (Clock × WriteOp)) (op : Clock × WriteOp) :
    served env (ops ++ [op]) =
      (op.2.program env (fun _ => .ok op.1) ⟨served env ops, none, 0⟩).2.committed := by
  simp [served]

/-- **The statements of any number of operations leave the tables the functions give.** -/
theorem served_eq_run (env : StoreEnv) (ops : List (Clock × WriteOp)) :
    served env ops = Store.run env (ops.map fun op => (op.1, op.2.toStoreOp)) := by
  rw [Store.run, List.foldl_map, served]
  congr 1
  funext s op
  exact op.2.committed_program env op.1 s 0

end Sysknife.Store.Sqlite
