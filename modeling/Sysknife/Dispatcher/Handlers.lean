import Sysknife.Dispatcher.Recheck

/-!
# The request handlers

`handle_preview`, `handle_approve`, `handle_cancel` and `handle_execute`, as programs over
`DaemonCall`. The body of `handle_execute` is cut at the points where its later exits owe more
than its earlier ones:

* `handleExecute`, `executeAuthorized`: nothing is held yet, an exit only sends an error;
* `executeGate`, `executeAdmitted`: slots may be claimed, an exit releases them;
* `executeClaimed`, `executeStart`, `executeRun`: the approval is spent and the status is
  `Running`.

What only logs or forwards to the audit sinks in the background, and the pauses between
retries, are left out. Progress lines are sent when the execution has ended, in their order.
-/

namespace Sysknife

/-- The name of a role in messages. -/
def CallerRole.debug : CallerRole → String
  | .observer => "Observer"
  | .dev => "Dev"
  | .admin => "Admin"
  | .boot => "Boot"

/-- The group that grants a role. -/
def groupForRole : CallerRole → String
  | .boot => "sysknife-boot"
  | .admin => "sysknife-admin"
  | .dev => "sysknife-dev"
  | .observer => "sysknife-observer"

/-- The message a caller sees when their role is too low. -/
def denialMessage (action : String) (caller required : CallerRole) : String :=
  "action '" ++ action ++ "' requires the " ++ required.debug ++ " role, but you have " ++
    caller.debug ++ ". Join the group that grants it: sudo usermod -aG " ++
    groupForRole required ++ " $USER, " ++
    "then log out and back in (group membership only applies to a new login)."

/-- The name of a job state in messages. -/
def JobState.debug : JobState → String
  | .queued => "Queued"
  | .running => "Running"
  | .succeeded => "Succeeded"
  | .failed => "Failed"
  | .canceled => "Canceled"
  | .rolledBack => "RolledBack"
  | .needsReboot => "NeedsReboot"

/-- The text of a store error. -/
def Store.StoreError.message : Store.StoreError → String
  | .io m => "io error: " ++ m
  | .sqlite m => "sqlite error: " ++ m
  | .json m => "json error: " ++ m
  | .databaseInvariant m => "database invariant violation: " ++ m
  | .notFound t => "transaction not found: " ++ t
  | .invalidTransition src dst =>
    "invalid transition from " ++ src.debug ++ " to " ++ dst.debug
  | .auditChainMissing m => "audit chain misconfiguration: " ++ m
  | .concurrentStatusChange t => "transaction " ++ t ++ " status changed concurrently; retry"

namespace Dispatcher

open Store

/-- How every handler ends. -/
abbrev Outcome := Except HandlerError Unit

/-! ### Requests -/

/-- Body and caller of a `preview`. -/
structure PreviewRequest where
  caller : CallerAttribution
  requestId : String
  actionName : String
  params : Value
  unattended : Bool

/-- Body and caller of an `approve` or a `cancel`. -/
structure TransactionRequest where
  caller : CallerAttribution
  requestId : String
  transactionId : String

/-- Body and caller of an `execute`. -/
structure ExecuteRequest where
  caller : CallerAttribution
  requestId : String
  transactionId : String
  actionName : String
  params : Value
  approvalReceipt : String

/-! ### Shared pieces -/

/-- Send one response. -/
def sendResponse (response : DaemonResponse) : Handler Outcome := call (.send response)

/-- Send an error response. -/
def sendError (requestId category message : String) : Handler Outcome :=
  sendResponse (.errorResponse requestId category message)

/-- Send a response without caring whether it arrives. -/
def sendBestEffort (response : DaemonResponse) : Handler Unit := do
  let _ ← sendResponse response
  return ()

/-- Send progress lines without caring whether they arrive. -/
def sendLines (jobId : String) : List String → Handler Unit
  | [] => return ()
  | line :: rest => do
    sendBestEffort (.jobProgress jobId line)
    sendLines jobId rest

/-- Answers of the ownership check. -/
inductive Ownership
  | owned
  | notOwned
  | noSuchTransaction
  | cannotEstablish (message : String)

/-- Is the caller the account that created the transaction? -/
def callerOwnsTransaction (caller : CallerAttribution) (transactionId : String) :
    Handler Ownership :=
  if caller.principal = .unattributed then
    return .cannotEstablish ("this connection could not be attributed to an account, so it " ++
      "cannot approve, cancel, inspect or execute a transaction. The daemon reports the peer as " ++
      "unattributed when SO_PEERCRED fails or when the peer is not representable in " ++
      "this daemon's user namespace.")
  else do
    match ← call (.fetchChainRow transactionId) with
    | .error e => return .cannotEstablish ("failed to load transaction ownership: " ++ e.message)
    | .ok none => return .noSuchTransaction
    | .ok (some row) =>
      match row.callerPrincipal with
      | none =>
        return .cannotEstablish ("transaction " ++ transactionId ++
          " records no owning account, so ownership cannot be established")
      | some owner => return if owner = caller.principal.asSignedStr then .owned else .notOwned

/-- The refusal for acting on someone else's transaction. -/
def notYourTransactionMessage (transactionId : String) : String :=
  "transaction " ++ transactionId ++ " was created by a different account. An approval receipt " ++
    "is proof that a specific account confirmed a specific preview, so only the account " ++
    "that previewed an action can approve, cancel, inspect or execute it."

/-- The refusal for a role that is too low. -/
def authorizationFailureMessage (d : Daemon) (caller : CallerRole) (actionName : String) : String :=
  match d.policy.minRoleForAction actionName with
  | some required => denialMessage actionName caller required
  | none => "action '" ++ actionName ++ "' is not allowed for " ++ caller.debug ++ " role"

/-- May the caller act on an existing transaction? Refusals are sent from here. -/
def authorizeForTransaction (d : Daemon) (r : TransactionRequest)
    (missingCategory missingMessage : String) : Handler (Except HandlerError Bool) := do
  -- a response was sent, so the handler stops; only a failure to send it is passed on
  let refuse (category message : String) : Handler (Except HandlerError Bool) := do
    match ← sendError r.requestId category message with
    | .ok () => return .ok false
    | .error e => return .error e
  match ← call (.get r.transactionId) with
  | .ok (some transaction) =>
    match ← callerOwnsTransaction r.caller r.transactionId with
    | .notOwned => refuse "authorization_failure" (notYourTransactionMessage r.transactionId)
    | .cannotEstablish message => refuse "authorization_failure" message
    | .owned | .noSuchTransaction =>
      if d.policy.actionAllowed r.caller.role transaction.actionName then return .ok true
      else
        refuse "authorization_failure"
          (authorizationFailureMessage d r.caller.role transaction.actionName)
  | .ok none => refuse missingCategory missingMessage
  | .error e =>
    refuse "transient_infrastructure_failure" ("failed to load transaction: " ++ e.message)

/-! ### Preview -/

/-- Recorded when a client declares that its approval gate was lifted. -/
def unattendedWarning : String :=
  "Approved without a human: this step was previewed by a client running with " ++
    "--dangerously-skip-approval, so no operator confirmed it."

/-- The part of a preview that captures what execution will be bound to: the members to add to
`proposed_change`, and a warning. -/
def captureAutoremove (r : PreviewRequest) : Handler (List (String × Value) × Option String) :=
  if r.actionName = "AptAutoremove" then do
    match ← simulateAutoremoveSet with
    | .ok set =>
      return ([(autoremoveRemovalsKey, .arr (set.map .str))], autoremoveKernelWarning set)
    | .error _ =>
      return ([], some (
        "Could not compute which packages autoremove would delete; approving this " ++
        "preview will not let it run until a preview captures the set."))
  else return ([], none)

/-- The same for the actions that name a deployment by its index. The index is cut to 32 bits. -/
def captureDeployment (d : Daemon) (r : PreviewRequest) :
    Handler (List (String × Value) × Option String) :=
  if r.actionName = "PinDeployment" ∨ r.actionName = "UnpinDeployment" then
    match (r.params.get "index").bind Value.asU64 with
    | some index => do
      match ← resolveDeploymentIdentity d (index % 2 ^ 32) with
      | .ok identity => return ([(deploymentIdentityKey, .str identity)], none)
      | .error _ =>
        return ([], some ("Could not read which deployment sits at that index; approving this " ++
          "preview will not let it run until a preview captures one."))
    | none => return ([], some "No deployment index was supplied, so nothing could be bound.")
  else return ([], none)

/-- Record a preview and answer it. -/
def handlePreview (d : Daemon) (r : PreviewRequest) : Handler Outcome :=
  match d.buildActionSpec r.actionName r.params with
  | .error e => sendError r.requestId "validation_failure" e.message
  | .ok spec =>
    if !d.policy.actionAllowed r.caller.role r.actionName then
      sendError r.requestId "authorization_failure"
        (authorizationFailureMessage d r.caller.role r.actionName)
    else
      match d.validateActionPlatform r.actionName with
      | .error message => sendError r.requestId "unsupported_platform" message
      | .ok () => do
        let requestHash := computeRequestHash d r.actionName r.params
        let collected ← call .collectState
        let currentState := collected.toOption.getD .null
        let (removals, autoremoveWarning) ← captureAutoremove r
        let (identity, deploymentWarning) ← captureDeployment d r
        let proposedChange : Value := .obj ([("action", .str r.actionName),
          ("params", d.redactParams r.actionName r.params)] ++ removals ++ identity)
        let envelope : RequestEnvelope :=
          ⟨r.actionName, r.requestId, r.params, r.caller.role, requestHash⟩
        let preview := d.previewAction envelope currentState proposedChange
        let stateWarning := match currentState with
          | .null => ["System state could not be collected; this preview was generated without " ++
              "it. Review the action carefully before approving."]
          | _ => []
        let preview := { preview with
          warnings := preview.warnings ++ autoremoveWarning.toList ++ deploymentWarning.toList ++
            stateWarning ++ if r.unattended then [unattendedWarning] else [] }
        let tx : NewTransaction :=
          ⟨r.requestId, requestHash, r.actionName, spec.riskLevel, preview.summary,
            preview.warnings, r.caller.role, r.caller.principal⟩
        match ← call (.recordPreviewed tx preview) with
        | .error e =>
          sendError r.requestId "transient_infrastructure_failure"
            ("failed to record preview transaction: " ++ e.message)
        | .ok recorded =>
          sendResponse (.previewResponse r.requestId preview recorded.transactionId)

/-! ### Approve and cancel -/

/-- Mint the receipt of a transaction, and take it back if it cannot be delivered. -/
def handleApprove (d : Daemon) (r : TransactionRequest) : Handler Outcome := do
  let stale := "transaction is missing, expired, already approved, or no longer queued"
  match ← authorizeForTransaction d r "stale_approval" stale with
  | .error e => return .error e
  | .ok false => return .ok ()
  | .ok true =>
    match ← call (.approveTransaction r.transactionId r.caller.principal) with
    | .error (.databaseInvariant m) =>
      sendError r.requestId "integrity_failure"
        ("approval rejected by an integrity check: " ++ (StoreError.databaseInvariant m).message)
    | .error e =>
      sendError r.requestId "transient_infrastructure_failure"
        ("failed to persist approval: " ++ e.message)
    | .ok none => sendError r.requestId "stale_approval" stale
    | .ok (some receipt) =>
      let response ← sendResponse (.approvalResponse r.requestId r.transactionId receipt)
      match response with
      | .ok () => return response
      | .error _ =>
        let _ ← call (.revokeUnconsumedApproval r.transactionId r.caller.principal)
        return response

/-- Cancel a transaction that is still queued. -/
def handleCancel (d : Daemon) (r : TransactionRequest) : Handler Outcome := do
  let message := "transaction cannot be canceled: it is missing, already executing, or finished"
  match ← authorizeForTransaction d r "not_cancelable" message with
  | .error e => return .error e
  | .ok false => return .ok ()
  | .ok true =>
    match ← call (.cancelQueued r.transactionId r.caller.principal) with
    | .ok true => sendResponse (.cancelResponse r.requestId r.transactionId)
    | .ok false => sendError r.requestId "not_cancelable" message
    | .error e =>
      sendError r.requestId "transient_infrastructure_failure"
        ("failed to cancel transaction: " ++ e.message)

/-! ### Execute -/

/-- An upgrade-class action. -/
def isHighRiskReboot (spec : ActionSpec) : Bool := spec.riskLevel == .high && spec.rebootRequired

/-- Does the gate apply to the action? -/
def isMutating (d : Daemon) (actionName : String) (spec : ActionSpec) : Bool :=
  let policySaysMutating :=
    match d.policy.minRoleForAction actionName with
    | some r => decide (CallerRole.observer < r)
    | none => true
  policySaysMutating || isHighRiskReboot spec

/-- The slots an execution holds while it runs. -/
def toClaim (d : Daemon) (actionName : String) (spec : ActionSpec) : List ExclusiveResource :=
  let system := if isHighRiskReboot spec then [ExclusiveResource.system] else []
  let own :=
    match exclusiveResource spec with
    | some r => if r ∈ system then system else system ++ [r]
    | none => system
  if isMutating d actionName spec then own else []

/-- What a client that has to wait is told. -/
def conflictMessage (blockingResource : ExclusiveResource) (runningHash : String) : String :=
  "another mutating action is already executing and holds " ++ blockingResource.label ++
    " (request_hash " ++ runningHash ++
      "); retry after the current job completes. This approval " ++
    "expires " ++ toString approvalReceiptTtlMinutes ++
    " minutes after it was issued, and that window is anchored to " ++
    "when the preview was created — re-running `sysknife approve` on this same " ++
    "transaction will not renew it. If the running job is still going once the " ++
    "window has passed, re-run the preview (which mints a fresh transaction) and " ++
    "approve that new transaction instead"

/-- Spelling of a job state in `job_completed`. -/
def jobStateStr : JobState → String
  | .queued => "queued"
  | .running => "running"
  | .succeeded => "succeeded"
  | .failed => "failed"
  | .canceled => "canceled"
  | .rolledBack => "rolled_back"
  | .needsReboot => "needs_reboot"

/-- One attempt to persist a terminal status. -/
def attemptTerminalStatus (transactionId : String) (target : JobState)
    (giveUp : StoreError → Handler (Except StoreError Unit)) :
    Handler (Except StoreError Unit) := do
  match ← call (.updateStatus transactionId target) with
  | .ok () => return .ok ()
  | .error e =>
    match ← call (.get transactionId) with
    | .ok (some record) => if record.status = target then return .ok () else giveUp e
    | _ => giveUp e

/-- Persist a terminal status, with so many retries after the first attempt. -/
def retryTerminalStatus (transactionId : String) (target : JobState) :
    (retries : ℕ) → Handler (Except StoreError Unit)
  | 0 => attemptTerminalStatus transactionId target fun e => return .error e
  | retries + 1 =>
    attemptTerminalStatus transactionId target fun _ =>
      retryTerminalStatus transactionId target retries

/-- Attempts in all to persist a terminal status. -/
def terminalStatusRetryAttempts : ℕ := 3

/-- Persist a terminal status. -/
def updateTerminalStatus (transactionId : String) (target : JobState) :
    Handler (Except StoreError Unit) :=
  retryTerminalStatus transactionId target (terminalStatusRetryAttempts - 1)

/-- Undo a failed action if it can be undone and is known to have stopped. -/
def attemptRollbackIfNeeded (jobId actionName : String) (spec : ActionSpec) (status : JobState)
    (summary : String) (actionMayStillBeRunning : Bool) :
    Handler (JobState × String × Option String) :=
  if status ≠ .failed ∨ !spec.rollbackAvailable then return (status, summary, none)
  else if actionMayStillBeRunning then do
    sendBestEffort (.jobProgress jobId (actionName ++ " could not be confirmed stopped, so " ++
      "automatic rollback was skipped: rolling back over a running transaction would be worse " ++
      "than leaving it. Inspect the host before retrying."))
    return (status, summary ++ " (automatic rollback skipped)", none)
  else
    match rollbackSpecFor actionName with
    | none => return (status, summary, none)
    | some rbSpec => do
      sendBestEffort (.jobProgress jobId
        (actionName ++ " failed — attempting automatic rollback via rpm-ostree rollback"))
      let gaveUp (detail : String) : Handler (JobState × String × Option String) := do
        sendBestEffort (.jobProgress jobId
          ("Rollback also failed (" ++ detail ++ ") — system may need manual intervention"))
        return (status, summary, none)
      match ← call (.execute rbSpec) with
      | .ok rbOut =>
        if rbOut.isSuccess then do
          sendBestEffort (.jobProgress jobId "Rollback succeeded — previous deployment restored")
          return (.rolledBack, actionName ++
            " failed and was automatically rolled back to the previous deployment",
            some "rpm-ostree rollback")
        else gaveUp ("exit code " ++ toString rbOut.exitCode)
      | .error e => gaveUp e.message

/-- Status and summary of an ended execution, before any rollback. -/
def initialStatus (actionName : String) (spec : ActionSpec) : ExecutionResult → JobState × String
  | .ok out =>
    if out.isSuccess then
      if spec.rebootRequired then (.needsReboot, actionName ++ " completed; reboot required")
      else (.succeeded, actionName ++ " completed successfully")
    else (.failed, actionName ++ " failed with exit code " ++ toString out.exitCode)
  | .error e => (.failed, actionName ++ " failed: " ++ e.message)

/-- The line that reports the end of an execution. -/
def completionLine (actionName : String) : ExecutionResult → String
  | .ok out => actionName ++ " completed with exit code " ++ toString out.exitCode
  | .error e => actionName ++ " completed with error: " ++ e.message

section Execute

variable (d : Daemon) (r : ExecuteRequest) (spec : ActionSpec)

/-- Release every slot this request claimed. With nothing claimed the source returns before
taking the lock; releasing nothing is the same. -/
def releaseExclusiveSlots : Handler Unit :=
  call (.release (toClaim d r.actionName spec) (computeRequestHash d r.actionName r.params))

/-- After the action ended: roll back, release, record and report. -/
def executeFinish (jobId : String) (output : ExecutionResult) : Handler Outcome := do
  let (status, summary) := initialStatus r.actionName spec output
  sendBestEffort (.jobProgress jobId (completionLine r.actionName output))
  let (finalStatus, summary, rollbackRef) ← attemptRollbackIfNeeded jobId r.actionName spec status
    summary (mayStillBeRunning output)
  -- a privileged action that may still be running keeps its slots until the daemon restarts
  unless mayStillBeRunning output do releaseExclusiveSlots d r spec
  let written ← updateTerminalStatus r.transactionId finalStatus
  let warnings := match written with
    | .ok () => []
    | .error e => ["audit trail update failed: " ++ e.message]
  sendResponse (.jobCompleted jobId
    ⟨jobStateStr finalStatus, summary, warnings, jobId, finalStatus == .needsReboot, rollbackRef,
      r.transactionId⟩)

/-- Execute the action. -/
def executeRun (jobId : String) : Handler Outcome := do
  sendBestEffort (.jobProgress jobId ("Authorization passed for " ++ r.actionName))
  sendBestEffort (.jobProgress jobId ("Executing " ++ r.actionName ++ "..."))
  call (.executeWithProgress spec)
  let (lines, output) ← call .executionResult
  sendLines jobId lines
  executeFinish d r spec jobId output

/-- Announce the job. A client that is already gone gets its transaction failed. -/
def executeStart : Handler Outcome := do
  let jobId ← call .newUuid
  match ← sendResponse (.jobStarted r.requestId jobId r.transactionId) with
  | .error e =>
    releaseExclusiveSlots d r spec
    let _ ← updateTerminalStatus r.transactionId .failed
    return .error e
  | .ok () => executeRun d r spec jobId

/-- A refusal that is still reported as an error response: its category and message. -/
abbrev Refusal := String × String

/-- The captured preview, or the refusal without one. -/
def approvedPreview : Except StoreError (Option PreviewEnvelope) → Except Refusal PreviewEnvelope
  | .ok (some preview) => .ok preview
  | .ok none =>
    .error ("stale_approval", "no persisted preview for this transaction; preview before executing")
  | .error e => .error ("transient_infrastructure_failure", "preview lookup failed: " ++ e.message)

/-- What the live autoremove set has to say about the approval. -/
def judgeAutoremove (preview : PreviewEnvelope) (live : Except String String) :
    Except Refusal Unit :=
  match autoremoveSet live with
  | .error e =>
    .error ("execution_failure", "could not confirm the autoremove set before executing: " ++ e)
  | .ok set =>
    match verifyAutoremoveBinding preview.proposedChange set with
    | .error reason => .error ("stale_approval", reason)
    | .ok () => .ok ()

/-- What the live deployments have to say about the approval. -/
def judgeDeployment (index : ℕ) (preview : PreviewEnvelope) (live : Except String String) :
    Except Refusal Unit :=
  match deploymentIdentity d (index % 2 ^ 32) live with
  | .error e =>
    .error ("execution_failure", "could not confirm which deployment is at that index: " ++ e)
  | .ok identity =>
    match verifyDeploymentBinding preview.proposedChange identity with
    | .error reason => .error ("stale_approval", reason)
    | .ok () => .ok ()

/-- Re-check the deletion set of an autoremove. -/
def recheckAutoremove : Handler (Except Refusal Unit) :=
  if r.actionName = "AptAutoremove" then do
    match approvedPreview (← call (.getPreview r.transactionId)) with
    | .error refusal => return .error refusal
    | .ok preview =>
      let live ← call (.runCommand "apt-get" ["-s", "autoremove"])
      return judgeAutoremove preview live
  else return .ok ()

/-- Re-check the deployment an index stands for. -/
def recheckDeployment : Handler (Except Refusal Unit) :=
  if r.actionName = "PinDeployment" ∨ r.actionName = "UnpinDeployment" then do
    match approvedPreview (← call (.getPreview r.transactionId)) with
    | .error refusal => return .error refusal
    | .ok preview =>
      match (r.params.get "index").bind Value.asU64 with
      | none =>
        return .error ("validation_failure",
          "no deployment index was supplied, so the approval cannot be bound to one")
      | some index =>
        let live ← call (.runCommand "rpm-ostree" ["status", "--json"])
        return judgeDeployment d index preview live
  else return .ok ()

/-- After the claim: re-check what the approval is bound to. -/
def executeClaimed : Handler Outcome := do
  let refuse (refusal : Refusal) : Handler Outcome := do
    releaseExclusiveSlots d r spec
    sendError r.requestId refusal.1 refusal.2
  match ← recheckAutoremove r with
  | .error refusal => refuse refusal
  | .ok () =>
    match ← recheckDeployment d r with
    | .error refusal => refuse refusal
    | .ok () => executeStart d r spec

/-- Past the gate: spend the approval. -/
def executeAdmitted : Handler Outcome := do
  match ← call (.claimApprovedForExecution r.transactionId
      (approvalReceiptDigest d.store r.approvalReceipt) r.caller.principal) with
  | .error e =>
    releaseExclusiveSlots d r spec
    sendError r.requestId "transient_infrastructure_failure"
      ("failed to claim transaction: " ++ e.message)
  | .ok false =>
    releaseExclusiveSlots d r spec
    sendError r.requestId "stale_approval"
      "transaction is not approved for this receipt, expired, or already consumed"
  | .ok true => executeClaimed d r spec

/-- The concurrency gate. Read-only actions pass without looking at it. -/
def executeGate : Handler Outcome :=
  if isMutating d r.actionName spec then do
    match ← call (.enterGate (exclusiveResource spec) (toClaim d r.actionName spec)
        (computeRequestHash d r.actionName r.params)) with
    | some (blockingResource, runningHash) =>
      sendResponse (.conflictResponse r.requestId (conflictMessage blockingResource runningHash)
        none)
    | none => executeAdmitted d r spec
  else executeAdmitted d r spec

/-- Role, platform, and the preview the request refers to. -/
def executeAuthorized : Handler Outcome :=
  if !d.policy.actionAllowed r.caller.role r.actionName then
    sendError r.requestId "authorization_failure"
      (authorizationFailureMessage d r.caller.role r.actionName)
  else
    match d.validateActionPlatform r.actionName with
    | .error message => sendError r.requestId "unsupported_platform" message
    | .ok () => do
      let submittedHash := computeRequestHash d r.actionName r.params
      match ← call (.get r.transactionId) with
      | .error e =>
        sendError r.requestId "transient_infrastructure_failure"
          ("transaction lookup failed: " ++ e.message)
      | .ok none =>
        sendError r.requestId "stale_approval"
          "no prior preview found for this transaction; preview before executing"
      | .ok (some priorTx) =>
        if priorTx.actionName ≠ r.actionName ∨ priorTx.requestHash ≠ submittedHash then
          sendError r.requestId "stale_approval"
            "action or parameters differ from the approved preview"
        else executeGate d r spec

end Execute

/-- Execute an approved transaction. -/
def handleExecute (d : Daemon) (r : ExecuteRequest) : Handler Outcome :=
  match d.buildActionSpec r.actionName r.params with
  | .error e => sendError r.requestId "validation_failure" e.message
  | .ok spec => do
    match ← callerOwnsTransaction r.caller r.transactionId with
    | .notOwned =>
      sendError r.requestId "authorization_failure" (notYourTransactionMessage r.transactionId)
    | .cannotEstablish message => sendError r.requestId "authorization_failure" message
    | .owned | .noSuchTransaction => executeAuthorized d r spec

/-! ### The daemon -/

/-- What sets a handler going. Besides the requests of clients: the periodic sweep of stale
transactions, and a revocation on its own, which the daemon itself only issues for a receipt
it could not deliver. -/
inductive Request
  | preview (r : PreviewRequest)
  | approve (r : TransactionRequest)
  | revokeApproval (r : TransactionRequest)
  | execute (r : ExecuteRequest)
  | cancel (r : TransactionRequest)
  | cleanup

/-- The transaction a request names. -/
def Request.transactionId : Request → Option String
  | .preview _ | .cleanup => none
  | .approve r | .revokeApproval r | .cancel r => some r.transactionId
  | .execute r => some r.transactionId

/-- The handler of a request. Its outcome is only logged. -/
def Daemon.handle (d : Daemon) : Request → Handler Unit
  | .preview r => do let _ ← handlePreview d r
  | .approve r => do let _ ← handleApprove d r
  | .revokeApproval r => do
    let _ ← call (.revokeUnconsumedApproval r.transactionId r.caller.principal)
  | .execute r => do let _ ← handleExecute d r
  | .cancel r => do let _ ← handleCancel d r
  | .cleanup => do let _ ← call .cleanupStaleQueued

/-- The daemon serving any number of requests at once. -/
@[reducible] def Daemon.system (d : Daemon) : System DaemonCall DaemonCall.Answer where
  World := World
  Request := Request
  Choice := Choice
  initial := .initial
  program := d.handle
  answer := World.serve d.store

end Dispatcher

end Sysknife
