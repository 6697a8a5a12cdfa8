import Sysknife.Lib.Prog
import Sysknife.Policy
import Sysknife.Store.Sqlite

/-!
# What the dispatcher calls

The request handlers of `dispatcher.rs` act on the world by calls (`DaemonCall`): they read and
write the store, take and release exclusion slots, run commands, execute actions and send
responses. A handler is a program over these calls (`Handler`), and a call is the unit at which
concurrent handlers interleave: each store operation is one database transaction, and each
access to the slot table happens under its mutex.

`World.serve` answers a call. Everything the daemon does not decide itself comes from a `Choice`:
the clock, identifiers drawn, whether the store fails, whether a response can be delivered, and
what commands and actions do.
-/

namespace Sysknife.Dispatcher

open Store

/-- Why a handler gave up. -/
inductive HandlerError
  | framing (message : String)
  | serialization (message : String)
  | internal (message : String)
  deriving DecidableEq, Repr

/-- Payload of `job_completed`. -/
structure JobResult where
  status : String
  summary : String
  warnings : List String
  jobId : String
  needsReboot : Bool
  rollbackRef : Option String
  transactionId : String

/-- The responses the modelled handlers send. -/
inductive DaemonResponse
  | previewResponse (requestId : String) (preview : PreviewEnvelope) (transactionId : String)
  | approvalResponse (requestId transactionId approvalReceipt : String)
  | jobStarted (requestId jobId transactionId : String)
  | jobProgress (jobId line : String)
  | jobCompleted (jobId : String) (result : JobResult)
  | cancelResponse (requestId transactionId : String)
  | errorResponse (requestId category message : String)
  | conflictResponse (requestId message : String) (retryAfterSeconds : Option ℕ)

/-- One call of a handler. -/
inductive DaemonCall
  | send (response : DaemonResponse)
  /-- `Uuid::new_v4` -/
  | newUuid
  /-- `collect_state`, rendered; a failure carries no more than its message. -/
  | collectState
  /-- `CommandRunner::run` -/
  | runCommand (program : String) (args : List String)
  | get (transactionId : String)
  | getPreview (transactionId : String)
  | fetchChainRow (transactionId : String)
  | recordPreviewed (tx : NewTransaction) (preview : PreviewEnvelope)
  | approveTransaction (transactionId : String) (approver : CallerPrincipal)
  | revokeUnconsumedApproval (transactionId : String) (revoker : CallerPrincipal)
  | claimApprovedForExecution (transactionId receiptDigest : String) (executor : CallerPrincipal)
  | updateStatus (transactionId : String) (newStatus : JobState)
  | cancelQueued (transactionId : String) (canceller : CallerPrincipal)
  | cleanupStaleQueued
  /-- The critical section of the concurrency gate: answer what blocks, or claim. -/
  | enterGate (own : Option ExclusiveResource) (toClaim : List ExclusiveResource)
    (requestHash : String)
  /-- The critical section of `release_exclusive_slots`. -/
  | release (claimed : List ExclusiveResource) (requestHash : String)
  /-- `execute_with_progress` starts. -/
  | executeWithProgress (spec : ActionSpec)
  /-- The execution that was started ends. -/
  | executionResult
  /-- `ActionExecutor::execute`, from start to end. -/
  | execute (spec : ActionSpec)

/-- What a call is answered with. -/
abbrev DaemonCall.Answer : DaemonCall → Type
  | .send _ => Except HandlerError Unit
  | .newUuid => String
  | .collectState => Except String Value
  | .runCommand _ _ => Except String String
  | .get _ => Except StoreError (Option TransactionRecord)
  | .getPreview _ => Except StoreError (Option PreviewEnvelope)
  | .fetchChainRow _ => Except StoreError (Option Audit.ChainRow)
  | .recordPreviewed _ _ => Except StoreError TransactionRecord
  | .approveTransaction _ _ => Except StoreError (Option String)
  | .revokeUnconsumedApproval _ _ => Except StoreError Bool
  | .claimApprovedForExecution _ _ _ => Except StoreError Bool
  | .updateStatus _ _ => Except StoreError Unit
  | .cancelQueued _ _ => Except StoreError Bool
  | .cleanupStaleQueued => Except StoreError ℕ
  | .enterGate _ _ _ => Option (ExclusiveResource × String)
  | .release _ _ => Unit
  | .executeWithProgress _ => Unit
  | .executionResult => List String × ExecutionResult
  | .execute _ => ExecutionResult

/-- A program of the dispatcher. -/
abbrev Handler (α : Type) := Prog DaemonCall DaemonCall.Answer α

/-- Make one call. -/
abbrev call (c : DaemonCall) : Handler c.Answer := Prog.perform c

/-! ### The world -/

/-- The request context `preview_action` reads. -/
structure RequestEnvelope where
  actionName : String
  requestId : String
  params : Value
  callerRole : CallerRole
  requestHash : String

/-- A configured daemon: the store it opened, its policy, and the parts of it that the
dispatcher only consults. -/
structure Daemon where
  store : StoreEnv
  /-- Static metadata of the action catalogue. -/
  specMeta : String → Option SpecMeta
  policy : PolicyTable specMeta
  /-- HMAC-SHA256 under the request hash key. -/
  hmac : Bytes → Bytes
  /-- The catalogue. -/
  buildActionSpec : String → Value → Except ExecutorError ActionSpec
  /-- The support matrix, for the host the daemon detected at start. -/
  validateActionPlatform : String → Except String Unit
  previewAction : RequestEnvelope → Value → Value → PreviewEnvelope
  redactParams : String → Value → Value
  /-- `serde_json::from_str` -/
  parseJson : String → Except String Value

/-- The shared state: the store, and which request holds each exclusion slot. -/
structure World where
  store : Tables
  runningExclusive : ExclusiveResource → Option String

/-- The daemon as it starts. -/
def World.initial : World := ⟨.empty, fun _ => none⟩

/-- What the outside decides at one call. -/
structure Choice where
  clock : Clock
  /-- The store itself fails. -/
  fault : Option StoreError
  /-- The identifier drawn, if one is. -/
  uuid : String
  sent : Except HandlerError Unit
  collected : Except String Value
  output : Except String String
  progress : List String
  result : ExecutionResult

/-- Run one database transaction; a failure leaves the tables unchanged. -/
def World.commit {α : Type} (w : World) (choice : Choice)
    (operation : Tables → Except StoreError (α × Tables)) : Except StoreError α × World :=
  match choice.fault with
  | some e => (.error e, w)
  | none =>
    match operation w.store with
    | .error e => (.error e, w)
    | .ok (a, store) => (.ok a, { w with store })

/-- Read from the store. -/
def World.read {α : Type} (w : World) (choice : Choice) (query : Tables → α) :
    Except StoreError α × World :=
  match choice.fault with
  | some e => (.error e, w)
  | none => (.ok (query w.store), w)

/-- What stands in the way of an execution: a system-wide job first, then its own resource. -/
def World.blocking (w : World) (own : Option ExclusiveResource) :
    Option (ExclusiveResource × String) :=
  ((w.runningExclusive .system).map fun h => (ExclusiveResource.system, h)).or
    (own.bind fun r => (w.runningExclusive r).map fun h => (r, h))

/-- Enter a request under every slot it claims. -/
def World.claim (w : World) (toClaim : List ExclusiveResource) (requestHash : String) : World :=
  { w with
    runningExclusive := fun r => if r ∈ toClaim then some requestHash else w.runningExclusive r }

/-- Remove the slots that still record this request. -/
def World.release (w : World) (claimed : List ExclusiveResource) (requestHash : String) : World :=
  { w with
    runningExclusive := fun r =>
      if r ∈ claimed ∧ w.runningExclusive r = some requestHash then none
      else w.runningExclusive r }

/-- The answer to a call, and the world after it. -/
def World.serve (env : StoreEnv) (w : World) (choice : Choice) :
    (c : DaemonCall) → c.Answer × World
  | .send _ => (choice.sent, w)
  | .newUuid => (choice.uuid, w)
  | .collectState => (choice.collected, w)
  | .runCommand _ _ => (choice.output, w)
  | .get t => w.read choice (·.get t)
  | .getPreview t => w.read choice (·.getPreview t)
  | .fetchChainRow t => w.read choice (·.fetchChainRow t)
  | .recordPreviewed tx preview =>
    w.commit choice (recordPreviewed env choice.clock choice.uuid tx preview)
  | .approveTransaction t approver =>
    w.commit choice (approveTransaction env choice.clock t approver)
  | .revokeUnconsumedApproval t revoker =>
    w.commit choice (revokeUnconsumedApproval env choice.clock t revoker)
  | .claimApprovedForExecution t digest executor =>
    w.commit choice (claimApprovedForExecution env choice.clock t digest executor)
  | .updateStatus t newStatus => w.commit choice (updateStatus env choice.clock t newStatus)
  | .cancelQueued t canceller => w.commit choice (cancelQueued env choice.clock t canceller)
  | .cleanupStaleQueued => w.commit choice (cleanupStaleQueued env choice.clock)
  | .enterGate own toClaim requestHash =>
    match w.blocking own with
    | some blocking => (some blocking, w)
    | none => (none, w.claim toClaim requestHash)
  | .release claimed requestHash => ((), w.release claimed requestHash)
  | .executeWithProgress _ => ((), w)
  | .executionResult => ((choice.progress, choice.result), w)
  | .execute _ => (choice.result, w)

end Sysknife.Dispatcher
