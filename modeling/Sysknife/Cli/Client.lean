import Sysknife.Dispatcher.Handlers

/-!
# The command-line client

The part of `client.rs` that executes a step: `executeWithOutcome` reads the daemon's replies to
one execute request until the job is reported or the connection is lost, and sorts its failures
by whether the action may have run. `executeStepsWithClient` (`mcp_server.rs`) executes the steps
of a plan one after the other.

A frame is the response the daemon serialised; what is lost is an ending (`Ending`) after the
frames that arrived. The text of a result is parsed: a status that is none is an error.
-/

namespace Sysknife.Cli

open Dispatcher (DaemonResponse)

/-- The ceiling given by `--max-risk`. -/
abbrev MaxRisk := RiskLevel

/-- Why a command of the CLI failed. -/
inductive CliError
  | rejected
  | executionFailed (message : String)
  | needsReboot (message : String)
  | planningFailed (message : String)
  | configOrDaemon (message : String)
  | riskCeilingExceeded (highest : RiskLevel) (ceiling : MaxRisk)
  | nonInteractive
  | runViewIncomplete (what : String) (withheld : ℕ) (shortenedNote : String)
  deriving DecidableEq, Repr

/-- A failed execution, and whether the action may have run all the same. -/
structure ExecuteFailure where
  error : CliError
  outcomeUnknown : Bool
  deriving DecidableEq, Repr

namespace ExecuteFailure

def failed (error : CliError) : ExecuteFailure := ⟨error, false⟩

def unknown (error : CliError) : ExecuteFailure := ⟨error, true⟩

end ExecuteFailure

/-- The result of an execution, as the client reads it. -/
structure ResultEnvelope where
  status : JobState
  summary : String
  warnings : List String
  jobId : Option String
  needsReboot : Bool
  rollbackRef : Option String
  transactionId : String
  deriving DecidableEq, Repr

/-- `JobState` from its spelling in a message. -/
def parseJobState : String → Option JobState
  | "queued" => some .queued
  | "running" => some .running
  | "succeeded" => some .succeeded
  | "failed" => some .failed
  | "canceled" => some .canceled
  | "rolled_back" => some .rolledBack
  | "needs_reboot" => some .needsReboot
  | _ => none

/-- The daemon's spelling of a state is read as that state. -/
theorem parseJobState_jobStateStr (s : JobState) :
    parseJobState (Dispatcher.jobStateStr s) = some s := by
  cases s <;> rfl

def parseResult (r : Dispatcher.JobResult) : Option ResultEnvelope :=
  (parseJobState r.status).map fun status =>
    ⟨status, r.summary, r.warnings, some r.jobId, r.needsReboot, r.rollbackRef, r.transactionId⟩

/-- How the replies end when the job is not reported. -/
inductive Ending
  /-- No further frame arrived in time. -/
  | timedOut
  /-- The connection failed or was closed. -/
  | recv (message : String)
  /-- A frame arrived that is no JSON. -/
  | parse (message : String)

def Ending.error : Ending → CliError
  | .timedOut => .executionFailed ("timed out after 7500s waiting for the next frame from the " ++
      "daemon; the job may still be running server-side")
  | .recv message => .executionFailed ("recv: " ++ message)
  | .parse message => .executionFailed ("parse: " ++ message)

/-- The loop over the frames. -/
def readReplies (ending : Ending) : List DaemonResponse → Except ExecuteFailure ResultEnvelope
  | [] => .error (.unknown ending.error)
  | frame :: rest =>
    match frame with
    | .jobStarted _ _ _ => readReplies ending rest
    | .jobProgress _ _ => readReplies ending rest
    | .jobCompleted _ result =>
      match parseResult result with
      | some envelope => .ok envelope
      | none => .error (.unknown (.executionFailed "parse result"))
    | .errorResponse _ category message =>
      .error (.failed (.executionFailed (category ++ ": " ++ message)))
    | .conflictResponse _ message _ =>
      .error (.failed (.executionFailed ("conflict: " ++ message)))
    | _ => .error (.unknown (.executionFailed "unexpected response type"))

/-- One attempt to execute a step. -/
inductive Attempt
  /-- There is no connection, or the request could not be written down: nothing was sent. -/
  | unsent (error : CliError)
  /-- Sending the request failed or took too long. -/
  | sendFailed (error : CliError)
  /-- The request was sent, and these frames came back before the ending. -/
  | sent (frames : List DaemonResponse) (ending : Ending)

/-- Execute a previewed and approved step. -/
def executeWithOutcome : Attempt → Except ExecuteFailure ResultEnvelope
  | .unsent error => .error (.failed error)
  | .sendFailed error => .error (.unknown error)
  | .sent frames ending => readReplies ending frames

/-! ### The steps of a plan -/

/-- A step with the receipt that approves it. -/
structure StepToExecute where
  transactionId : String
  actionName : String
  params : Value
  approvalReceipt : String

/-- What is reported about a step. -/
structure StepResult where
  actionName : String
  status : String
  summary : String
  warnings : List String
  needsReboot : Bool
  transactionId : String
  rollbackRef : Option String

/-- A program of execute requests. -/
abbrev StepRunner (α : Type) :=
  Prog StepToExecute (fun _ => Except ExecuteFailure ResultEnvelope) α

/-- The text of an error, as far as the reports quote it. -/
def CliError.message : CliError → String
  | .rejected => "plan rejected by user"
  | .executionFailed m => "execution failed: " ++ m
  | .needsReboot m => "execution paused: " ++ m
  | .planningFailed m => "planning failed: " ++ m
  | .configOrDaemon m => "config/daemon error: " ++ m
  | .riskCeilingExceeded highest ceiling =>
    "plan contains a " ++ highest.asStr ++ " step, but --max-risk ceiling is " ++ ceiling.asStr
  | .nonInteractive => "plan requires interactive approval but --non-interactive was set"
  | .runViewIncomplete what withheld shortenedNote =>
    what ++ " does not fit on screen: " ++ toString withheld ++ " line(s) were not shown" ++
      shortenedNote ++
        ". Approving would mean consenting to text you were not shown. Re-run with " ++
      "--json to see all of it before you answer"

/-- The report on a step that was not seen to complete. -/
def failureReport (step : StepToExecute) (failure : ExecuteFailure) : StepResult where
  actionName := step.actionName
  status := if failure.outcomeUnknown then "unknown" else "failed"
  summary := "execute error for " ++ step.actionName ++ ": " ++ failure.error.message
  warnings :=
    if failure.outcomeUnknown then
      ["The daemon may have applied this action or may still be running it. Check transaction " ++
        "history and host state before retrying; do not automatically replay the plan."]
    else []
  needsReboot := false
  transactionId := step.transactionId
  rollbackRef := none

def completionReport (step : StepToExecute) (result : ResultEnvelope) : StepResult where
  actionName := step.actionName
  status := Dispatcher.jobStateStr result.status
  summary := result.summary
  warnings := result.warnings
  needsReboot := result.needsReboot
  transactionId := result.transactionId
  rollbackRef := result.rollbackRef

/-- Execute the steps in order, until one does not succeed. -/
def executeStepsWithClient : List StepToExecute → StepRunner (List StepResult)
  | [] => return []
  | step :: rest => do
    match ← Prog.perform step with
    | .error failure => return [failureReport step failure]
    | .ok result =>
      if result.status = .succeeded then
        return completionReport step result :: (← executeStepsWithClient rest)
      else return [completionReport step result]

/-- Does an answer report that the step succeeded? -/
def reportsSuccess (answer : Except ExecuteFailure ResultEnvelope) : Bool :=
  match answer with
  | .ok result => result.status == .succeeded
  | .error _ => false

end Sysknife.Cli
