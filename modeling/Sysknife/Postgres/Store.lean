import Sysknife.Lib.Prog
import Sysknife.Store.Sqlite

/-!
# The PostgreSQL transaction store

The operations of `store/postgres.rs` as programs of SQL statements. Every operation runs in one
database transaction at the isolation level `READ COMMITTED`, and the statements of concurrent
operations interleave:

* a statement sees the rows that are committed and the writes of its own transaction
  (`Db.view`), not the writes of other open transactions;
* a row that a transaction has written, inserted or selected `FOR UPDATE` stays locked until the
  transaction ends (`Session.held`), and a statement that needs it has to wait (`Db.blocked`);
* a statement that searches for rows and then locks them does so in two steps. The search reads
  what is committed when the statement starts; the write, which may have had to wait, looks at
  the newest version of the row again (`find…` and `update…`).

A statement may fail, and a transaction with a failed statement is rolled back. The mutable tables
with a primary key are functions of it; rows of `transactions` and `audit_events` are kept in the
order in which they were committed. `created_at` always holds a timestamp the store wrote itself.
-/

namespace Sysknife.Postgres

open Audit Store

/-! ### Tables -/

/-- The tables of the database. -/
structure PgTables where
  transactions : List TransactionRow
  previews : String → Option PreviewEnvelope
  approvals : String → Option ApprovalRow
  events : List EventRow

namespace PgTables

/-- The database as it is created. -/
def empty : PgTables := ⟨[], fun _ => none, fun _ => none, []⟩

variable (s : PgTables)

/-- The transaction under an identifier. -/
def findTransaction (transactionId : String) : Option TransactionRow :=
  Table.lookup (fun r => r.transactionId) transactionId s.transactions

/-- The status column of a transaction. -/
def statusOf (transactionId : String) : Option JobState :=
  (s.findTransaction transactionId).map TransactionRow.status

/-- `SELECT … WHERE transaction_id = … AND consumed_at IS NULL` -/
def unconsumed (transactionId : String) : Option ApprovalRow :=
  (s.approvals transactionId).filter fun a => a.consumedAt.isNone

/-- The kinds of the events of a transaction, in their order. -/
def historyOf (transactionId : String) : List String :=
  (s.events.filter (·.transactionId == transactionId)).map EventRow.kind

end PgTables

/-- `ORDER BY seq DESC LIMIT 1` -/
def newest {α : Type} (seq : α → ℕ) (rows : List α) : Option α :=
  rows.foldl (fun best r => if best.any fun b => seq r < seq b then best else some r) none

/-! ### Writes and locks -/

/-- A row a transaction can hold, or a unique key it has inserted. -/
inductive Lock
  | transaction (transactionId : String)
  | transactionSeq (seq : ℕ)
  | preview (transactionId : String)
  | approval (transactionId : String)
  | event (seq : ℕ)
  deriving DecidableEq, Repr

/-- What one statement writes. -/
inductive Write
  | insertTransaction (row : TransactionRow)
  | setStatus (transactionId : String) (status : JobState)
  | insertPreview (transactionId : String) (preview : PreviewEnvelope)
  | insertApproval (row : ApprovalRow)
  | consumeApproval (transactionId consumedAt : String)
  | deleteApproval (transactionId : String)
  | insertEvent (row : EventRow)

namespace Write

/-- The tables after a write. -/
def apply (s : PgTables) : Write → PgTables
  | .insertTransaction row => { s with transactions := s.transactions ++ [row] }
  | .setStatus t status =>
    { s with
      transactions :=
        (Table.updateWhere (fun r => r.transactionId == t) (fun r => { r with status })
          s.transactions).2 }
  | .insertPreview t preview =>
    { s with previews := fun t' => if t' = t then some preview else s.previews t' }
  | .insertApproval row =>
    { s with approvals := fun t => if t = row.transactionId then some row else s.approvals t }
  | .consumeApproval t at_ =>
    { s with
      approvals := fun t' =>
        if t' = t then (s.approvals t').map fun a => { a with consumedAt := some at_ }
        else s.approvals t' }
  | .deleteApproval t => { s with approvals := fun t' => if t' = t then none else s.approvals t' }
  | .insertEvent row => { s with events := s.events ++ [row] }

/-- What a write locks. -/
def locks : Write → List Lock
  | .insertTransaction row => [.transaction row.transactionId, .transactionSeq row.seq]
  | .setStatus t _ => [.transaction t]
  | .insertPreview t _ => [.preview t]
  | .insertApproval row => [.approval row.transactionId]
  | .consumeApproval t _ => [.approval t]
  | .deleteApproval t => [.approval t]
  | .insertEvent row => [.event row.seq]

end Write

/-- The tables after several writes. -/
def PgTables.writes (s : PgTables) (ws : List Write) : PgTables := ws.foldl Write.apply s

/-! ### Statements -/

/-- The statements that run inside a transaction. -/
inductive Statement
  /-- Search of `UPDATE transactions … WHERE transaction_id = … AND status = 'queued'`. -/
  | findQueued (transactionId : String)
  /-- Search of the same with a time limit and an approval that `EXISTS`. -/
  | findClaimable (transactionId receiptDigest : String)
  /-- Search of `INSERT INTO transaction_approvals … SELECT … FROM transactions`. -/
  | findApprovable (transactionId : String)
  /-- Search of a write to `transaction_approvals … WHERE consumed_at IS NULL`. -/
  | findUnconsumed (transactionId : String)
  /-- Search of `SELECT status FROM transactions … FOR UPDATE`. -/
  | findTransaction (transactionId : String)
  | selectStale
  | selectDigest (transactionId : String)
  | selectEventTip
  | selectTransactionTip
  | lockTransaction (transactionId : String)
  | lockEvent (seq : ℕ)
  /-- The row is still queued, or nothing is written. -/
  | updateQueued (transactionId : String) (newStatus : JobState)
  | updateStatus (transactionId : String) (newStatus : JobState)
  /-- `ON CONFLICT (transaction_id) DO NOTHING` -/
  | insertApproval (row : ApprovalRow)
  | consumeApproval (transactionId consumedAt : String)
  | deleteApproval (transactionId : String)
  | insertEvent (row : EventRow)
  | insertTransaction (row : TransactionRow)
  | insertPreview (transactionId : String) (preview : PreviewEnvelope)

namespace Statement

/-- What a statement reports; writes report the number of rows. -/
abbrev Result : Statement → Type
  | .findQueued _ | .findClaimable _ _ | .findApprovable _ | .findUnconsumed _ => Bool
  | .findTransaction _ => Bool
  | .selectStale => List String
  | .selectDigest _ => Option String
  | .selectEventTip => Option EventRow
  | .selectTransactionTip => Option TransactionRow
  | .lockTransaction _ => Option JobState
  | .lockEvent _ => Unit
  | .updateQueued _ _ | .updateStatus _ _ => ℕ
  | .insertApproval _ | .consumeApproval _ _ | .deleteApproval _ => ℕ
  | .insertEvent _ | .insertTransaction _ | .insertPreview _ _ => Unit

/-- The error of an insert that meets an existing key. -/
def uniqueViolation (constraint : String) : StoreError :=
  .databaseInvariant ("postgres: error returned from database: duplicate key value violates " ++
    "unique constraint \"" ++ constraint ++ "\"")

/-- What a statement reports on the tables it sees. -/
def run (env : StoreEnv) (clock : Clock) (s : PgTables) :
    (st : Statement) → Except StoreError st.Result
  | .findQueued t => .ok (s.statusOf t == some .queued)
  | .findClaimable t digest =>
    .ok ((s.findTransaction t).any fun r =>
      r.status == .queued && withinTtl env clock r.createdAt &&
        (s.unconsumed t).any fun a => a.receiptDigest == digest)
  | .findApprovable t =>
    .ok ((s.findTransaction t).any fun r =>
      r.status == .queued && withinTtl env clock r.createdAt)
  | .findUnconsumed t => .ok (s.unconsumed t).isSome
  | .findTransaction t => .ok (s.findTransaction t).isSome
  | .selectStale =>
    .ok ((s.transactions.filter fun r =>
      r.status == .queued && beyondTtl env clock r.createdAt).map (·.transactionId))
  | .selectDigest t => .ok ((s.unconsumed t).map ApprovalRow.receiptDigest)
  | .selectEventTip => .ok (newest EventRow.seq s.events)
  | .selectTransactionTip => .ok (newest (fun r => r.seq) s.transactions)
  | .lockTransaction t => .ok (s.statusOf t)
  | .lockEvent _ => .ok ()
  | .updateQueued t _ => .ok (if s.statusOf t = some .queued then 1 else 0)
  | .updateStatus t _ => .ok (if (s.findTransaction t).isSome then 1 else 0)
  | .insertApproval row => .ok (if (s.approvals row.transactionId).isSome then 0 else 1)
  | .consumeApproval t _ => .ok (if (s.unconsumed t).isSome then 1 else 0)
  | .deleteApproval t => .ok (if (s.unconsumed t).isSome then 1 else 0)
  | .insertEvent row =>
    if s.events.any fun e => e.seq == row.seq then .error (uniqueViolation "audit_events_pkey")
    else .ok ()
  | .insertTransaction row =>
    if (s.findTransaction row.transactionId).isSome then
      .error (uniqueViolation "transactions_pkey")
    else if s.transactions.any fun r => r.seq == row.seq then
      .error (uniqueViolation "transactions_seq_key")
    else .ok ()
  | .insertPreview t _ =>
    if (s.previews t).isSome then .error (uniqueViolation "transaction_previews_pkey") else .ok ()

/-- What a statement has written, given what it reported. -/
def write : (st : Statement) → st.Result → Option Write
  | .updateQueued t status, n => if 0 < n then some (.setStatus t status) else none
  | .updateStatus t status, n => if 0 < n then some (.setStatus t status) else none
  | .insertApproval row, n => if 0 < n then some (.insertApproval row) else none
  | .consumeApproval t at_, n => if 0 < n then some (.consumeApproval t at_) else none
  | .deleteApproval t, n => if 0 < n then some (.deleteApproval t) else none
  | .insertEvent row, _ => some (.insertEvent row)
  | .insertTransaction row, _ => some (.insertTransaction row)
  | .insertPreview t preview, _ => some (.insertPreview t preview)
  | _, _ => none

/-- What a statement has locked, given what it reported. -/
def locks (st : Statement) (result : st.Result) : List Lock :=
  match st with
  | .lockTransaction t => [.transaction t]
  | .lockEvent seq => [.event seq]
  | st => ((st.write result).map Write.locks).getD []

/-- The rows and keys a statement waits for. -/
def needs : Statement → List Lock
  | .lockTransaction t => [.transaction t]
  | .lockEvent seq => [.event seq]
  | .updateQueued t _ | .updateStatus t _ => [.transaction t]
  | .insertApproval row => [.approval row.transactionId]
  | .consumeApproval t _ => [.approval t]
  | .deleteApproval t => [.approval t]
  | .insertEvent row => [.event row.seq]
  | .insertTransaction row => [.transaction row.transactionId, .transactionSeq row.seq]
  | .insertPreview t _ => [.preview t]
  | _ => []

end Statement

/-! ### The database -/

/-- Number of a database transaction. -/
abbrev TxId := ℕ

/-- An open transaction: what it has written, and what it holds. -/
structure Session where
  writes : List Write
  held : List Lock

/-- The committed tables and the open transactions. -/
structure Db where
  committed : PgTables
  sessions : TxId → Option Session
  /-- The next number to be given out. -/
  nextTx : TxId

namespace Db

/-- A new database. -/
def initial : Db := ⟨.empty, fun _ => none, 0⟩

variable (db : Db)

/-- What a statement of a transaction sees. -/
def view (tx : TxId) : PgTables :=
  match db.sessions tx with
  | some session => db.committed.writes session.writes
  | none => db.committed

/-- Change one transaction. -/
def setSession (tx : TxId) (session : Option Session) : Db :=
  { db with sessions := fun tx' => if tx' = tx then session else db.sessions tx' }

/-- Open a transaction. -/
def open_ : Db :=
  { db.setSession db.nextTx (some ⟨[], []⟩) with nextTx := db.nextTx + 1 }

/-- Undo a transaction. -/
def rollback (tx : TxId) : Db := db.setSession tx none

/-- Make the writes of a transaction visible to all. -/
def commit (tx : TxId) : Db := { db.setSession tx none with committed := db.view tx }

/-- Another transaction holds the row. -/
def heldByOther (tx : TxId) (lock : Lock) : Bool :=
  (List.range db.nextTx).any fun tx' =>
    tx' != tx && (db.sessions tx').any fun session => decide (lock ∈ session.held)

end Db

/-- What the store asks of the database, and of the clock. -/
inductive PgCall
  | begin_
  | commit (tx : TxId)
  | rollback (tx : TxId)
  /-- `now_iso` -/
  | nowIso
  /-- `SELECT request_hash, approval_id FROM transactions`, outside of any transaction. -/
  | selectCommitment (transactionId : String)
  | exec (tx : TxId) (statement : Statement)

/-- What a call is answered with. -/
abbrev PgCall.Answer : PgCall → Type
  | .begin_ => Except StoreError TxId
  | .commit _ | .rollback _ => Except StoreError Unit
  | .nowIso => Except StoreError String
  | .selectCommitment _ => Except StoreError (Option (String × Option String))
  | .exec _ statement => Except StoreError statement.Result

/-- What the outside decides at one call. -/
structure PgChoice where
  clock : Clock
  /-- The call fails. -/
  fault : Option StoreError
  /-- A `COMMIT` that fails has taken effect all the same. -/
  persists : Bool

namespace Db

/-- Run one statement. A transaction with a failed statement is rolled back. -/
def exec (env : StoreEnv) (db : Db) (choice : PgChoice) (tx : TxId) (statement : Statement) :
    Except StoreError statement.Result × Db :=
  match choice.fault, db.sessions tx with
  | some e, _ => (.error e, db.rollback tx)
  | none, none => (.error (.io "postgres: connection closed"), db)
  | none, some session =>
    match statement.run env choice.clock (db.view tx) with
    | .error e => (.error e, db.rollback tx)
    | .ok result =>
      (.ok result, db.setSession tx (some
        ⟨session.writes ++ (statement.write result).toList,
          session.held ++ statement.locks result⟩))

/-- The answer to a call, and the database after it. -/
def serve (env : StoreEnv) (db : Db) (choice : PgChoice) : (c : PgCall) → c.Answer × Db
  | .begin_ =>
    match choice.fault with
    | some e => (.error e, db)
    | none => (.ok db.nextTx, db.open_)
  | .commit tx =>
    match choice.fault with
    | some e => (.error e, if choice.persists then db.commit tx else db.rollback tx)
    | none => (.ok (), db.commit tx)
  | .rollback tx => (.ok (), db.rollback tx)
  | .nowIso => (.ok choice.clock.text, db)
  | .selectCommitment t =>
    match choice.fault with
    | some e => (.error e, db)
    | none =>
      (.ok ((db.committed.findTransaction t).map fun r => (r.requestHash, r.approvalId)), db)
  | .exec tx statement => db.exec env choice tx statement

/-- The call has to wait for another transaction. -/
def blocked (db : Db) : PgCall → Bool
  | .exec tx statement => statement.needs.any (db.heldByOther tx)
  | _ => false

end Db

/-! ### Programs -/

/-- A piece of the store's code: calls, any of which may fail. -/
abbrev Query (α : Type) := ExceptT StoreError (Prog PgCall PgCall.Answer) α

/-- Run a statement of a transaction. -/
def exec (tx : TxId) (statement : Statement) : Query statement.Result :=
  ExceptT.mk (Prog.perform (PgCall.exec tx statement))

/-- Open a transaction. -/
def begin_ : Query TxId := ExceptT.mk (Prog.perform PgCall.begin_)

/-- Commit a transaction. -/
def commit (tx : TxId) : Query Unit := ExceptT.mk (Prog.perform (PgCall.commit tx))

/-- The time as text. -/
def nowIso : Query String := ExceptT.mk (Prog.perform PgCall.nowIso)

/-- The request hash and the approval commitment of a transaction. -/
def selectCommitment (transactionId : String) : Query (Option (String × Option String)) :=
  ExceptT.mk (Prog.perform (PgCall.selectCommitment transactionId))

/-- Give up: a transaction that is dropped is rolled back. -/
def abandon {α : Type} (tx : TxId) (e : StoreError) : Query α :=
  ExceptT.mk (Prog.perform (PgCall.rollback tx) >>= fun _ => pure (.error e))

section Operations

variable (env : StoreEnv) (key : AuditKey)

/-- `UPDATE transactions SET status = … WHERE transaction_id = … AND status = 'queued'` -/
def setStatusIfQueued (tx : TxId) (transactionId : String) (newStatus : JobState) : Query ℕ := do
  if ← exec tx (.findQueued transactionId) then exec tx (.updateQueued transactionId newStatus)
  else return 0

/-- `DELETE FROM transaction_approvals WHERE transaction_id = … AND consumed_at IS NULL` -/
def deleteUnconsumed (tx : TxId) (transactionId : String) : Query ℕ := do
  if ← exec tx (.findUnconsumed transactionId) then exec tx (.deleteApproval transactionId)
  else return 0

/-- `UPDATE transaction_approvals SET consumed_at = … WHERE … AND consumed_at IS NULL` -/
def consumeUnconsumed (tx : TxId) (transactionId consumedAt : String) : Query ℕ := do
  if ← exec tx (.findUnconsumed transactionId) then
    exec tx (.consumeApproval transactionId consumedAt)
  else return 0

/-- `SELECT status FROM transactions WHERE transaction_id = … FOR UPDATE` -/
def selectStatusForUpdate (tx : TxId) (transactionId : String) : Query (Option JobState) := do
  if ← exec tx (.findTransaction transactionId) then exec tx (.lockTransaction transactionId)
  else return none

/-- `SELECT … FROM audit_events ORDER BY seq DESC LIMIT 1 FOR UPDATE` -/
def selectEventTipForUpdate (tx : TxId) : Query (Option EventRow) := do
  match ← exec tx .selectEventTip with
  | some row => do
    exec tx (.lockEvent row.seq)
    return some row
  | none => return none

/-- `SELECT … FROM transactions ORDER BY seq DESC LIMIT 1 FOR UPDATE` -/
def selectTransactionTipForUpdate (tx : TxId) : Query (Option TransactionRow) := do
  match ← exec tx .selectTransactionTip with
  | some row => do
    let _ ← exec tx (.lockTransaction row.transactionId)
    return some row
  | none => return none

/-- The row of an event that follows the newest one. -/
def eventRow (prev : Option EventRow) (createdAt : String) (kind : AuditEventKind)
    (transactionId receiptDigest : String) (identity : EventIdentity) : EventRow :=
  let seq := (prev.map EventRow.seq).getD 0 + 1
  let prevChainHash := (prev.map EventRow.chainHash).getD ""
  let content : EventContent :=
    ⟨seq, "v1", kind, transactionId, receiptDigest, createdAt, identity⟩
  let storedPrincipal :=
    match identity with
    | .v2 callerPrincipal => some callerPrincipal
    | .legacyV1 => none
  ⟨seq, "v1", kind.asStr, transactionId, receiptDigest, createdAt, prevChainHash,
    key.eventHash content prevChainHash, identity.version, storedPrincipal⟩

/-- Append one signed event inside the caller's transaction. -/
def appendEvent (tx : TxId) (kind : AuditEventKind) (transactionId receiptDigest : String)
    (identity : EventIdentity) : Query Unit := do
  let prev ← selectEventTipForUpdate tx
  let createdAt ← nowIso
  exec tx (.insertEvent (eventRow key prev createdAt kind transactionId receiptDigest identity))

/-- Take back an approval that was not spent. -/
def revokeUnconsumedApprovalInTx (tx : TxId) (transactionId revokerSigned : String) :
    Query Bool := do
  -- the digest is read before the delete, to be named by the event
  let digest ← exec tx (.selectDigest transactionId)
  let rowsAffected ← deleteUnconsumed tx transactionId
  if 0 < rowsAffected then
    match digest with
    | none =>
      abandon tx (.databaseInvariant
        ("revoked an approval for " ++ transactionId ++ " that had no receipt digest"))
    | some digest => do
      appendEvent key tx .approvalRevoked transactionId digest (.v2 revokerSigned)
      return true
  else return false

/-- The row of a new transaction that follows the newest one. -/
def transactionRow (prev : Option TransactionRow) (eventTip createdAt transactionId : String)
    (transaction : NewTransaction) : TransactionRow :=
  let approvalId := some (approvalCommitment env key transactionId transaction.requestHash)
  let seq := (prev.map fun r => r.seq).getD 0 + 1
  let prevChainHash := (prev.map fun r => r.chainHash).getD ""
  let identity := ChainIdentity.v4 transaction.callerRole.asStr eventTip
    transaction.callerPrincipal.asSignedStr
  let content : ChainContent :=
    ⟨seq, "v1", transactionId, transaction.requestId, transaction.requestHash,
      transaction.actionName, transaction.riskLevel, transaction.summary, approvalId,
      Value.renderStrings transaction.warnings, createdAt, identity⟩
  { seq
    keyId := "v1"
    transactionId
    requestId := transaction.requestId
    requestHash := transaction.requestHash
    actionName := transaction.actionName
    riskLevel := transaction.riskLevel
    summary := transaction.summary
    approvalId
    warningsJson := Value.renderStrings transaction.warnings
    createdAt
    prevChainHash
    chainHash := key.chainHash content prevChainHash
    chainVersion := identity.version
    callerRole := some transaction.callerRole.asStr
    eventTip := some eventTip
    callerPrincipal := some transaction.callerPrincipal.asSignedStr
    warnings := transaction.warnings
    status := .queued }

/-- Insert the row of a new transaction. -/
def insertTransaction (tx : TxId) (transactionId : String) (transaction : NewTransaction) :
    Query TransactionRecord := do
  let createdAt ← nowIso
  let prev ← selectTransactionTipForUpdate tx
  let tip ← exec tx .selectEventTip
  let row := transactionRow env key prev ((tip.map EventRow.chainHash).getD "") createdAt
    transactionId transaction
  exec tx (.insertTransaction row)
  return row.toRecord

/-- Record a transaction under a fresh identifier. -/
def record (transactionId : String) (transaction : NewTransaction) : Query TransactionRecord := do
  let tx ← begin_
  let inserted ← insertTransaction env key tx transactionId transaction
  commit tx
  return inserted

/-- Record a transaction together with its preview. -/
def recordPreviewed (transactionId : String) (transaction : NewTransaction)
    (preview : PreviewEnvelope) : Query TransactionRecord := do
  let tx ← begin_
  let inserted ← insertTransaction env key tx transactionId transaction
  exec tx (.insertPreview transactionId preview)
  commit tx
  return inserted

/-- Move a transaction's status along the transition table. -/
def updateStatus (transactionId : String) (newStatus : JobState) : Query Unit := do
  let tx ← begin_
  match ← selectStatusForUpdate tx transactionId with
  | none => abandon tx (.notFound transactionId)
  | some current =>
    if !current.allowedTransition newStatus then
      abandon tx (.invalidTransition current newStatus)
    else do
      let _ ← exec tx (.updateStatus transactionId newStatus)
      appendEvent key tx (.ofJobState newStatus) transactionId "" .legacyV1
      commit tx

/-- `INSERT INTO transaction_approvals … SELECT … FROM transactions WHERE …`. The row of
`transactions` is read without a lock. -/
def insertApprovalIfQueued (tx : TxId) (transactionId receiptDigest : String) : Query ℕ := do
  if ← exec tx (.findApprovable transactionId) then
    exec tx (.insertApproval ⟨transactionId, receiptDigest, none⟩)
  else return 0

/-- Attach the approval receipt to a fresh queued preview. -/
def approveTransaction (transactionId : String) (approver : CallerPrincipal) :
    Query (Option String) := do
  match ← selectCommitment transactionId with
  | none => return none
  | some (requestHash, committedDigest) =>
    let receipt := key.approvalReceipt transactionId requestHash
    let receiptDigest := approvalReceiptDigest env receipt
    if committedDigest ≠ some receiptDigest then
      throw (.databaseInvariant ("transaction " ++ transactionId ++
        " approval commitment does not match its signed preview"))
    else do
      let tx ← begin_
      let rowsAffected ← insertApprovalIfQueued tx transactionId receiptDigest
      if 0 < rowsAffected then do
        appendEvent key tx .approvalGranted transactionId receiptDigest (.v2 approver.asSignedStr)
        commit tx
        return some receipt
      else do
        commit tx
        return none

/-- Take back an approval that could not be delivered. -/
def revokeUnconsumedApproval (transactionId : String) (revoker : CallerPrincipal) :
    Query Bool := do
  let tx ← begin_
  let revoked ← revokeUnconsumedApprovalInTx key tx transactionId revoker.asSignedStr
  commit tx
  return revoked

/-- The guarded `UPDATE` of a claim. -/
def setRunningIfClaimable (tx : TxId) (transactionId receiptDigest : String) : Query ℕ := do
  if ← exec tx (.findClaimable transactionId receiptDigest) then
    exec tx (.updateQueued transactionId .running)
  else return 0

/-- Spend an approval and start running. The statement that marks the approval as spent is not
asked how many rows it found. -/
def claimApprovedForExecution (transactionId receiptDigest : String)
    (executor : CallerPrincipal) : Query Bool := do
  let tx ← begin_
  let rowsAffected ← setRunningIfClaimable tx transactionId receiptDigest
  if 0 < rowsAffected then do
    let consumedAt ← nowIso
    let _ ← consumeUnconsumed tx transactionId consumedAt
    appendEvent key tx .approvalConsumed transactionId receiptDigest (.v2 executor.asSignedStr)
    appendEvent key tx .statusRunning transactionId "" .legacyV1
    commit tx
    return true
  else do
    commit tx
    return false

/-- Cancel one transaction if it is still queued. -/
def cancelQueuedInTx (tx : TxId) (transactionId cancellerSigned : String) : Query ℕ := do
  let rowsAffected ← setStatusIfQueued tx transactionId .canceled
  if 0 < rowsAffected then do
    let _ ← revokeUnconsumedApprovalInTx key tx transactionId cancellerSigned
    appendEvent key tx .statusCanceled transactionId "" .legacyV1
    return rowsAffected
  else return 0

/-- The loop of `cleanupStaleQueued` over the identifiers it selected. -/
def cancelEach (tx : TxId) : List String → ℕ → Query ℕ
  | [], canceled => return canceled
  | id :: ids, canceled => do
    let rowsAffected ←
      cancelQueuedInTx key tx id CallerPrincipal.unattributed.asSignedStr
    cancelEach tx ids (canceled + rowsAffected)

/-- Cancel every queued transaction older than the receipt's lifetime. -/
def cleanupStaleQueued : Query ℕ := do
  let tx ← begin_
  let staleIds ← exec tx .selectStale
  let canceled ← cancelEach key tx staleIds 0
  commit tx
  return canceled

/-- Cancel one still-queued transaction on a caller's request. -/
def cancelQueued (transactionId : String) (canceller : CallerPrincipal) : Query Bool := do
  let tx ← begin_
  let rowsAffected ← cancelQueuedInTx key tx transactionId canceller.asSignedStr
  commit tx
  return decide (0 < rowsAffected)

end Operations

/-! ### The store -/

/-- The operations that write. -/
inductive PgRequest
  | record (transactionId : String) (transaction : NewTransaction)
  | recordPreviewed (transactionId : String) (transaction : NewTransaction)
      (preview : PreviewEnvelope)
  | updateStatus (transactionId : String) (newStatus : JobState)
  | approve (transactionId : String) (approver : CallerPrincipal)
  | revoke (transactionId : String) (revoker : CallerPrincipal)
  | claim (transactionId receiptDigest : String) (executor : CallerPrincipal)
  | cleanup
  | cancelQueued (transactionId : String) (canceller : CallerPrincipal)

/-- An opened store. -/
structure PgStore where
  env : StoreEnv
  key : AuditKey

/-- The program of an operation. Its answer goes to the caller. -/
def PgStore.program (store : PgStore) : PgRequest → Prog PgCall PgCall.Answer Unit
  | .record t transaction => do let _ ← (record store.env store.key t transaction).run
  | .recordPreviewed t transaction preview => do
    let _ ← (recordPreviewed store.env store.key t transaction preview).run
  | .updateStatus t newStatus => do let _ ← (updateStatus store.key t newStatus).run
  | .approve t approver => do let _ ← (approveTransaction store.env store.key t approver).run
  | .revoke t revoker => do let _ ← (revokeUnconsumedApproval store.key t revoker).run
  | .claim t digest executor => do
    let _ ← (claimApprovedForExecution store.key t digest executor).run
  | .cleanup => do let _ ← (cleanupStaleQueued store.key).run
  | .cancelQueued t canceller => do let _ ← (cancelQueued store.key t canceller).run

/-- Any number of operations at once on one database. -/
@[reducible] def PgStore.system (store : PgStore) : System PgCall PgCall.Answer where
  World := Db
  Request := PgRequest
  Choice := PgChoice
  initial := .initial
  program := store.program
  answer := Db.serve store.env

/-- A call is made when it does not have to wait; a failure (a deadlock, a lost connection) can
end the waiting. -/
def Unblocked {store : PgStore} (c : store.system.Config) : store.system.Event → Prop
  | .arrive _ => True
  | .act pid choice => ∀ (p : store.system.Process) call k, c.procs[pid]? = some p →
      p.program = .call call k → choice.fault = none → c.world.blocked call = false

end Sysknife.Postgres
