import Sysknife.Audit.Chain
import Sysknife.Json
import Sysknife.Lib.Table

/-!
# The SQLite transaction store

The operations of `transactions.rs` on the four tables they write. An operation runs in one
database transaction: it is a function from the tables to an error or to its answer with the
new tables, and an error leaves the tables as they were (`StoreOp.apply`). Statements are kept
apart as the source has them: a conditional `UPDATE`, `DELETE` or `INSERT … SELECT` reports
how many rows it touched, and the events are appended only when that is not zero.

Rows of `transactions` and `audit_events` are kept in the order of their sequence numbers, so
that the newest row is the last one. The job status column holds a `JobState`; the JSON
spelling around it, and the JSON columns of previews, are not modelled. Failures of SQLite
itself leave the tables unchanged and are the business of the callers.
-/

namespace Sysknife.Store

open Audit

/-! ### Tables -/

/-- Errors of the transaction stores. -/
inductive StoreError
  | io (message : String)
  | sqlite (message : String)
  | json (message : String)
  | databaseInvariant (message : String)
  | notFound (transactionId : String)
  | invalidTransition (src dst : JobState)
  | auditChainMissing (message : String)
  | concurrentStatusChange (transactionId : String)
  deriving DecidableEq, Repr

/-- A row of `transactions`: the chained columns, the mutable status, and the warnings whose
rendering is the `warnings_json` column. -/
structure TransactionRow extends ChainRow where
  warnings : List String
  status : JobState
  deriving DecidableEq, Repr

/-- A row of `transaction_approvals`. -/
structure ApprovalRow where
  transactionId : String
  receiptDigest : String
  consumedAt : Option String
  deriving DecidableEq, Repr

/-- `WHERE transaction_id = … AND consumed_at IS NULL` -/
def ApprovalRow.unconsumedOf (transactionId : String) (a : ApprovalRow) : Bool :=
  a.transactionId == transactionId && a.consumedAt.isNone

/-- A row of `audit_events`. -/
structure EventRow where
  seq : ℕ
  keyId : String
  /-- The spelling of an `AuditEventKind`. -/
  kind : String
  transactionId : String
  receiptDigest : String
  createdAt : String
  prevChainHash : String
  chainHash : String
  chainVersion : ℕ
  callerPrincipal : Option String
  deriving DecidableEq, Repr

/-- What the daemon showed the operator. -/
structure PreviewEnvelope where
  summary : String
  riskLevel : RiskLevel
  currentState : Value
  proposedChange : Value
  expectedSideEffects : List String
  rebootRequired : Bool
  rollbackAvailable : Bool
  warnings : List String
  requestHash : String

/-- The tables of the store. -/
structure Tables where
  transactions : List TransactionRow
  previews : List (String × PreviewEnvelope)
  approvals : List ApprovalRow
  events : List EventRow

/-- The transaction under an identifier. -/
def Tables.findTransaction (s : Tables) (transactionId : String) : Option TransactionRow :=
  Table.lookup (fun r => r.transactionId) transactionId s.transactions

/-- The approval of a transaction. -/
def Tables.findApproval (s : Tables) (transactionId : String) : Option ApprovalRow :=
  Table.lookup ApprovalRow.transactionId transactionId s.approvals

/-- The store as it is created. -/
def Tables.empty : Tables := ⟨[], [], [], []⟩

/-- A transaction as handed to callers. -/
structure TransactionRecord where
  transactionId : String
  requestId : String
  requestHash : String
  actionName : String
  riskLevel : RiskLevel
  status : JobState
  approvalId : Option String
  summary : String
  warnings : List String
  deriving DecidableEq, Repr

/-- What a caller provides to record a transaction. The status is not among it. -/
structure NewTransaction where
  requestId : String
  requestHash : String
  actionName : String
  riskLevel : RiskLevel
  summary : String
  warnings : List String
  callerRole : CallerRole
  callerPrincipal : CallerPrincipal

/-- The moment an operation runs at, in the three forms its statements ask for. -/
structure Clock where
  /-- `strftime('%Y-%m-%dT%H:%M:%fZ', 'now')` -/
  text : String
  /-- `datetime('now')` -/
  datetime : String
  /-- Milliseconds on the scale of `StoreEnv.julianday`. -/
  instant : ℤ

/-- An opened store: its key, if it may write, and the functions of its environment. -/
structure StoreEnv where
  auditKey : Option AuditKey
  sha256 : Bytes → Bytes
  /-- SQL `julianday`, in milliseconds; `none` for text that is no timestamp. -/
  julianday : String → Option ℤ

/-- Lifetime of an approval receipt, in minutes. -/
def approvalReceiptTtlMinutes : ℤ := 15

section Statements

variable (env : StoreEnv) (clock : Clock)

/-- `julianday(created_at) > julianday('now', '-15 minutes')` -/
def withinTtl (createdAt : String) : Bool :=
  match env.julianday createdAt with
  | some t => clock.instant - approvalReceiptTtlMinutes * 60000 < t
  | none => false

/-- `julianday(created_at) <= julianday('now', '-15 minutes')` -/
def beyondTtl (createdAt : String) : Bool :=
  match env.julianday createdAt with
  | some t => t ≤ clock.instant - approvalReceiptTtlMinutes * 60000
  | none => false

/-- The key of a store opened for writing. -/
def requireKey (message : String) : Except StoreError AuditKey :=
  match env.auditKey with
  | some key => .ok key
  | none => .error (.auditChainMissing message)

/-- Digest of a receipt, as committed and stored. -/
def approvalReceiptDigest (receipt : String) : String := Hex.encode (env.sha256 (utf8 receipt))

/-- The commitment a preview signs to the receipt its approval will mint. -/
def approvalCommitment (key : AuditKey) (transactionId requestHash : String) : String :=
  approvalReceiptDigest env (key.approvalReceipt transactionId requestHash)

/-- `UPDATE transactions SET status = … WHERE …`, with the number of rows it changed. -/
def Tables.setStatusWhere (s : Tables) (p : TransactionRow → Bool) (status : JobState) :
    ℕ × Tables :=
  let updated := Table.updateWhere p (fun r => { r with status }) s.transactions
  (updated.1, { s with transactions := updated.2 })

/-- `chain_hash` of the newest event. -/
def Tables.eventChainTip (s : Tables) : Option String := s.events.getLast?.map EventRow.chainHash

/-- Append one signed event. -/
def appendEvent (key : AuditKey) (kind : AuditEventKind) (transactionId receiptDigest : String)
    (identity : EventIdentity) (s : Tables) : Tables :=
  let prevChainHash := s.eventChainTip.getD ""
  let seq := (s.events.getLast?.map EventRow.seq).getD 0 + 1
  let content : EventContent :=
    ⟨seq, "v1", kind, transactionId, receiptDigest, clock.text, identity⟩
  let storedPrincipal :=
    match identity with
    | .v2 callerPrincipal => some callerPrincipal
    | .legacyV1 => none
  { s with
    events := s.events ++
      [⟨seq, "v1", kind.asStr, transactionId, receiptDigest, clock.text, prevChainHash,
        key.eventHash content prevChainHash, identity.version, storedPrincipal⟩] }

/-- The row, record and commitments of a new transaction. It always starts queued, and its
approval commitment is the store's own. -/
def newRow (key : AuditKey) (transactionId : String) (tx : NewTransaction) (s : Tables) :
    TransactionRow :=
  let approvalId := some (approvalCommitment env key transactionId tx.requestHash)
  let chainRows := s.transactions.map TransactionRow.toChainRow
  let seq := nextSeq chainRows
  let prevChainHash := tipHash chainRows
  let eventTip := s.eventChainTip.getD ""
  let identity :=
    ChainIdentity.v4 tx.callerRole.asStr eventTip tx.callerPrincipal.asSignedStr
  let content : ChainContent :=
    ⟨seq, "v1", transactionId, tx.requestId, tx.requestHash, tx.actionName, tx.riskLevel,
      tx.summary, approvalId, Value.renderStrings tx.warnings, clock.text, identity⟩
  { seq
    keyId := "v1"
    transactionId
    requestId := tx.requestId
    requestHash := tx.requestHash
    actionName := tx.actionName
    riskLevel := tx.riskLevel
    summary := tx.summary
    approvalId
    warningsJson := Value.renderStrings tx.warnings
    createdAt := clock.text
    prevChainHash
    chainHash := key.chainHash content prevChainHash
    chainVersion := identity.version
    callerRole := some tx.callerRole.asStr
    eventTip := some eventTip
    callerPrincipal := some tx.callerPrincipal.asSignedStr
    warnings := tx.warnings
    status := .queued }

/-- The record of a row. -/
def TransactionRow.toRecord (r : TransactionRow) : TransactionRecord where
  transactionId := r.transactionId
  requestId := r.requestId
  requestHash := r.requestHash
  actionName := r.actionName
  riskLevel := r.riskLevel
  status := r.status
  approvalId := r.approvalId
  summary := r.summary
  warnings := r.warnings

/-! ### Operations -/

/-- Insert the row of a new transaction; its identifier is the primary key. -/
def insertTransaction (key : AuditKey) (transactionId : String) (tx : NewTransaction)
    (s : Tables) : Except StoreError (TransactionRecord × Tables) :=
  if (s.findTransaction transactionId).isSome then
    .error (.sqlite "UNIQUE constraint failed: transactions.transaction_id")
  else
    let row := newRow env clock key transactionId tx s
    .ok (row.toRecord, { s with transactions := s.transactions ++ [row] })

/-- Record a transaction under a fresh identifier. -/
def record (transactionId : String) (tx : NewTransaction) (s : Tables) :
    Except StoreError (TransactionRecord × Tables) := do
  let key ← requireKey env "this TransactionStore was opened read-only; cannot record"
  insertTransaction env clock key transactionId tx s

/-- Record a transaction together with its preview. -/
def recordPreviewed (transactionId : String) (tx : NewTransaction) (preview : PreviewEnvelope)
    (s : Tables) : Except StoreError (TransactionRecord × Tables) := do
  let key ← requireKey env "this TransactionStore was opened read-only; cannot record"
  let (rec_, s) ← insertTransaction env clock key transactionId tx s
  .ok (rec_, { s with previews := s.previews ++ [(transactionId, preview)] })

/-- Look up one transaction. -/
def Tables.get (s : Tables) (transactionId : String) : Option TransactionRecord :=
  (s.findTransaction transactionId).map TransactionRow.toRecord

/-- Look up one transaction's chained columns. -/
def Tables.fetchChainRow (s : Tables) (transactionId : String) : Option ChainRow :=
  (s.findTransaction transactionId).map TransactionRow.toChainRow

/-- Look up the preview of a transaction. -/
def Tables.getPreview (s : Tables) (transactionId : String) : Option PreviewEnvelope :=
  s.previews.lookup transactionId

/-- Move a transaction's status along the transition table. -/
def updateStatus (transactionId : String) (newStatus : JobState) (s : Tables) :
    Except StoreError (Unit × Tables) := do
  match s.findTransaction transactionId with
  | none => .error (.notFound transactionId)
  | some row =>
    let current := row.status
    if !current.allowedTransition newStatus then
      .error (.invalidTransition current newStatus)
    else
      let (rowsAffected, s) := s.setStatusWhere
        (fun r => r.transactionId == transactionId && r.status == current) newStatus
      if rowsAffected = 0 then .error (.concurrentStatusChange transactionId)
      else
        let key ← requireKey env
          "update_status has no signing key, so the outcome could not be chained"
        .ok ((), appendEvent clock key (.ofJobState newStatus) transactionId "" .legacyV1 s)

/-- Attach the approval receipt to a fresh queued preview. Answers the receipt, or `none` when
the transaction is missing, expired, already approved or no longer queued. -/
def approveTransaction (transactionId : String) (approver : CallerPrincipal) (s : Tables) :
    Except StoreError (Option String × Tables) := do
  let key ← requireKey env "this TransactionStore was opened read-only; cannot approve"
  match s.get transactionId with
  | none => .ok (none, s)
  | some rec_ =>
    let receipt := key.approvalReceipt transactionId rec_.requestHash
    let receiptDigest := approvalReceiptDigest env receipt
    match rec_.approvalId with
    | none =>
      .error (.databaseInvariant
        ("transaction " ++ transactionId ++ " has no signed approval commitment"))
    | some committedDigest =>
      if receiptDigest ≠ committedDigest then
        .error (.databaseInvariant ("transaction " ++ transactionId ++
          " approval commitment does not match its signed preview"))
      else
        let selected := s.transactions.filter fun r =>
          r.transactionId == transactionId && r.status == .queued &&
            withinTtl env clock r.createdAt &&
            (s.findApproval transactionId).isNone
        let rowsAffected := selected.length
        let s := { s with
          approvals := s.approvals ++
            selected.map fun r => ⟨r.transactionId, receiptDigest, none⟩ }
        if 0 < rowsAffected then
          .ok (some receipt, appendEvent clock key .approvalGranted transactionId receiptDigest
            (.v2 approver.asSignedStr) s)
        else .ok (none, s)

/-- Take back an approval that was not spent, inside an open database transaction. -/
def revokeUnconsumedApprovalInTx (key : AuditKey) (transactionId revokerSigned : String)
    (s : Tables) : Except StoreError (Bool × Tables) :=
  let digest :=
    (s.approvals.find? (ApprovalRow.unconsumedOf transactionId)).map ApprovalRow.receiptDigest
  let (rowsAffected, approvals) :=
    Table.deleteWhere (ApprovalRow.unconsumedOf transactionId) s.approvals
  let s := { s with approvals }
  if 0 < rowsAffected then
    match digest with
    | none =>
      .error (.databaseInvariant
        ("revoked an approval for " ++ transactionId ++ " that had no receipt digest"))
    | some digest =>
      .ok (true, appendEvent clock key .approvalRevoked transactionId digest (.v2 revokerSigned) s)
  else .ok (false, s)

/-- Take back an approval that could not be delivered. -/
def revokeUnconsumedApproval (transactionId : String) (revoker : CallerPrincipal) (s : Tables) :
    Except StoreError (Bool × Tables) := do
  let key ← requireKey env "this TransactionStore was opened read-only; cannot revoke"
  revokeUnconsumedApprovalInTx clock key transactionId revoker.asSignedStr s

/-- Spend an approval and start running, in one step. -/
def claimApprovedForExecution (transactionId receiptDigest : String)
    (executor : CallerPrincipal) (s : Tables) : Except StoreError (Bool × Tables) := do
  let key ← requireKey env "this TransactionStore was opened read-only; cannot claim"
  let (rowsAffected, s') := s.setStatusWhere
    (fun r => r.transactionId == transactionId && r.status == .queued &&
      withinTtl env clock r.createdAt &&
      s.approvals.any fun a =>
        a.transactionId == transactionId && a.receiptDigest == receiptDigest &&
          a.consumedAt.isNone)
    .running
  if 0 < rowsAffected then
    let (_, approvals) := Table.updateWhere (ApprovalRow.unconsumedOf transactionId)
      (fun a => { a with consumedAt := some clock.datetime }) s'.approvals
    let s' := { s' with approvals }
    let s' := appendEvent clock key .approvalConsumed transactionId receiptDigest
      (.v2 executor.asSignedStr) s'
    .ok (true, appendEvent clock key .statusRunning transactionId "" .legacyV1 s')
  else .ok (false, s')

/-- Cancel one transaction if it is still queued, inside an open database transaction. -/
def cancelQueuedInTx (key : AuditKey) (transactionId cancellerSigned : String) (s : Tables) :
    Except StoreError (ℕ × Tables) := do
  let (rowsAffected, s) := s.setStatusWhere
    (fun r => r.transactionId == transactionId && r.status == .queued) .canceled
  if 0 < rowsAffected then
    let (_, s) ← revokeUnconsumedApprovalInTx clock key transactionId cancellerSigned s
    .ok (rowsAffected, appendEvent clock key .statusCanceled transactionId "" .legacyV1 s)
  else .ok (0, s)

/-- Cancel one still-queued transaction on a caller's request. -/
def cancelQueued (transactionId : String) (canceller : CallerPrincipal) (s : Tables) :
    Except StoreError (Bool × Tables) := do
  let key ← requireKey env "this TransactionStore was opened read-only; cannot cancel"
  let (rowsAffected, s) ← cancelQueuedInTx clock key transactionId canceller.asSignedStr s
  .ok (decide (0 < rowsAffected), s)

/-- The loop of `cleanupStaleQueued` over the identifiers it selected. -/
def cancelEach (key : AuditKey) : List String → ℕ → Tables → Except StoreError (ℕ × Tables)
  | [], canceled, s => .ok (canceled, s)
  | id :: ids, canceled, s => do
    let (rowsAffected, s) ←
      cancelQueuedInTx clock key id CallerPrincipal.unattributed.asSignedStr s
    cancelEach key ids (canceled + rowsAffected) s

/-- Cancel every queued transaction older than the receipt's lifetime. -/
def cleanupStaleQueued (s : Tables) : Except StoreError (ℕ × Tables) := do
  let key ← requireKey env "this TransactionStore was opened read-only; cannot clean up"
  let staleIds := (s.transactions.filter fun r =>
    r.status == .queued && beyondTtl env clock r.createdAt).map (·.transactionId)
  cancelEach clock key staleIds 0 s

/-- The identifiers of a page of running transactions, newest first. -/
def Tables.runningPage (s : Tables) : List String :=
  ((s.transactions.reverse.filter (·.status == .running)).take 100).map (·.transactionId)

/-- Fail each listed transaction. Each status write commits on its own, so the ones before an
error stay. -/
def failEach : List String → Tables → Except StoreError Unit × Tables
  | [], s => (.ok (), s)
  | id :: ids, s =>
    match updateStatus env clock id .failed s with
    | .error e => (.error e, s)
    | .ok ((), s') => failEach ids s'

/-- The paging loop of `reconcileInterruptedRunning`; every full page leaves fewer running
transactions, so as many rounds as there are rows are enough. -/
def reconcilePages : ℕ → ℕ → Tables → Except StoreError ℕ × Tables
  | 0, total, s => (.ok total, s)
  | rounds + 1, total, s =>
    let running := s.runningPage
    if running.isEmpty then (.ok total, s)
    else
      match failEach env clock running s with
      | (.error e, s') => (.error e, s')
      | (.ok (), s') =>
        if running.length < 100 then (.ok (total + running.length), s')
        else reconcilePages rounds (total + running.length) s'

/-- Fail every transaction a previous daemon left running. -/
def reconcileInterruptedRunning (s : Tables) : Except StoreError ℕ × Tables :=
  reconcilePages env clock (s.transactions.length + 1) 0 s

end Statements

/-! ### Runs -/

/-- The operations that write, with the answers they draw from outside. -/
inductive StoreOp
  | record (transactionId : String) (tx : NewTransaction)
  | recordPreviewed (transactionId : String) (tx : NewTransaction) (preview : PreviewEnvelope)
  | approve (transactionId : String) (approver : CallerPrincipal)
  | revoke (transactionId : String) (revoker : CallerPrincipal)
  | claim (transactionId receiptDigest : String) (executor : CallerPrincipal)
  | updateStatus (transactionId : String) (newStatus : JobState)
  | cancelQueued (transactionId : String) (canceller : CallerPrincipal)
  | cleanup
  | reconcile

/-- The tables after a database transaction: an error rolls back. -/
def committed {α : Type} (s : Tables) : Except StoreError (α × Tables) → Tables
  | .ok (_, s') => s'
  | .error _ => s

/-- The tables after an operation. -/
def StoreOp.apply (env : StoreEnv) (clock : Clock) (s : Tables) : StoreOp → Tables
  | .record id tx => committed s (Store.record env clock id tx s)
  | .recordPreviewed id tx preview => committed s (Store.recordPreviewed env clock id tx preview s)
  | .approve id approver => committed s (approveTransaction env clock id approver s)
  | .revoke id revoker => committed s (revokeUnconsumedApproval env clock id revoker s)
  | .claim id digest executor =>
    committed s (claimApprovedForExecution env clock id digest executor s)
  | .updateStatus id status => committed s (Store.updateStatus env clock id status s)
  | .cancelQueued id canceller => committed s (Store.cancelQueued env clock id canceller s)
  | .cleanup => committed s (cleanupStaleQueued env clock s)
  | .reconcile => (reconcileInterruptedRunning env clock s).2

/-- The tables after a sequence of operations on a new store. -/
def run (env : StoreEnv) (ops : List (Clock × StoreOp)) : Tables :=
  ops.foldl (fun s op => op.2.apply env op.1 s) .empty

theorem run_concat (env : StoreEnv) (ops : List (Clock × StoreOp)) (op : Clock × StoreOp) :
    run env (ops ++ [op]) = op.2.apply env op.1 (run env ops) := by
  simp [run]

end Sysknife.Store
