import Sysknife.Json
import Sysknife.Types

/-!
# The state of the desktop shell

`shellState.ts`. A mode carries the data the source's union type gives it, so a plan is there
exactly in the modes that show one. `shellReducer` computes the next state from an action; its
entries in the timeline are stamped with the time of the dispatch.

Two things are followed through the reducer: the plan that is shown with an intent
(`shown_shellReducer`), and whether an execution is on (`executing_shellReducer`,
`not_executing_shellReducer`).
-/

namespace Sysknife.Shell

/-! ### What the shell is told -/

/-- A step as the shell shows it. -/
structure PlanStepResponse where
  actionName : String
  summary : String
  riskLevel : RiskLevel
  approvalRequired : Bool
  /-- Passed back as they are when the step is executed. -/
  params : Value

structure PlanResponse where
  summary : String
  explanation : String
  approvalRequired : Bool
  steps : List PlanStepResponse
  hostName : String
  deployment : String
  toolboxCount : ℕ
  flatpakCount : ℕ

structure ShellError where
  code : String
  message : String
  systemChanged : Bool

structure StepOutput where
  actionName : String
  status : String
  outputLines : List String

structure ExecutionResult where
  outcome : String
  stepOutputs : List StepOutput

inductive DaemonStatus
  | unknown
  | connected
  | unreachable
  deriving DecidableEq, Repr

inductive TimelineEntryKind
  | system
  | user
  | success
  | warning
  | error
  deriving DecidableEq, Repr

structure TimelineEntry where
  id : String
  timestamp : String
  kind : TimelineEntryKind
  text : String

inductive ShellOutcome
  | succeeded
  | needsReboot
  | failed
  | rolledBack
  | canceled
  deriving DecidableEq, Repr

/-! ### States and actions -/

inductive ShellMode
  | idle (error : Option ShellError)
  | planning
  | previewing (plan : PlanResponse) (planError : Option ShellError)
  | awaitingApproval (plan : PlanResponse) (planError : Option ShellError)
  | executing (plan : PlanResponse) (activeJobId : String)
  | reviewing (plan : PlanResponse) (executionResult : ExecutionResult) (summary : Option String)
  | needsReboot (plan : PlanResponse)
  | failed (plan : PlanResponse)
  | rolledBack (plan : PlanResponse)

structure ShellState where
  mode : ShellMode
  intent : String
  daemonStatus : DaemonStatus
  timeline : List TimelineEntry

inductive ShellAction
  | intentSubmitted (intent : String)
  | planReady (plan : PlanResponse)
  | requestApproval
  | approvalGranted
  | jobCompleted (outcome : ShellOutcome)
  | executionReviewReady (executionResult : ExecutionResult)
  | summaryReady (summary : String)
  | dismissReview
  | timelineEvent (text : String) (kind : TimelineEntryKind)
  | planErrored (error : ShellError)
  | policyErrored (error : ShellError)
  | cancelRequested
  | daemonStatusChanged (status : DaemonStatus)
  | reset

def initialShellState : ShellState := ⟨.idle none, "", .unknown, []⟩

/-! ### The reducer -/

section Reducer

variable (now : String)

def appendTimeline (state : ShellState) (text : String) (kind : TimelineEntryKind) : ShellState :=
  { state with timeline :=
      state.timeline ++ [⟨toString (state.timeline.length + 1), now, kind, text⟩] }

def shellReducer (state : ShellState) : ShellAction → ShellState
  | .intentSubmitted intent =>
    appendTimeline now { state with mode := .planning, intent }
      ("Intent submitted: " ++ intent) .user
  | .planReady plan =>
    appendTimeline now { state with mode := .previewing plan none }
      ("Plan ready: " ++ plan.summary) .system
  | .requestApproval =>
    match state.mode with
    | .previewing plan _ =>
      appendTimeline now { state with mode := .awaitingApproval plan none }
        "Awaiting user approval" .system
    | _ => state
  | .approvalGranted =>
    match state.mode with
    | .awaitingApproval plan _ =>
      appendTimeline now { state with mode := .executing plan "pending" }
        "Approval granted — executing" .user
    | _ => state
  -- these two outcomes are taken in every mode, the others only while executing
  | .jobCompleted .succeeded =>
    appendTimeline now { state with mode := .idle none } "Job completed successfully" .success
  | .jobCompleted .canceled =>
    appendTimeline now { state with mode := .idle none } "Job canceled" .warning
  | .jobCompleted .needsReboot =>
    match state.mode with
    | .executing plan _ =>
      appendTimeline now { state with mode := .needsReboot plan }
        "Job completed — reboot required" .warning
    | _ => state
  | .jobCompleted .rolledBack =>
    match state.mode with
    | .executing plan _ =>
      appendTimeline now { state with mode := .rolledBack plan } "Job rolled back" .warning
    | _ => state
  | .jobCompleted .failed =>
    match state.mode with
    | .executing plan _ =>
      appendTimeline now { state with mode := .failed plan } "Job failed" .error
    | _ => state
  | .executionReviewReady executionResult =>
    match state.mode with
    | .executing plan _ =>
      appendTimeline now { state with mode := .reviewing plan executionResult none }
        "Execution complete — reviewing results" .success
    | _ => state
  | .summaryReady summary =>
    match state.mode with
    | .reviewing plan executionResult _ =>
      { state with mode := .reviewing plan executionResult (some summary) }
    | _ => state
  | .dismissReview =>
    match state.mode with
    | .reviewing _ _ _ => { state with mode := .idle none, intent := "" }
    | _ => state
  | .planErrored error =>
    appendTimeline now { state with mode := .idle (some error) }
      ("Planning failed: " ++ error.message) .error
  | .policyErrored error =>
    match state.mode with
    | .previewing plan _ =>
      appendTimeline now { state with mode := .previewing plan (some error) }
        ("Policy error: " ++ error.message) .error
    | .awaitingApproval plan _ =>
      appendTimeline now { state with mode := .awaitingApproval plan (some error) }
        ("Policy error: " ++ error.message) .error
    | _ => state
  | .cancelRequested => appendTimeline now state "Cancellation requested" .user
  | .daemonStatusChanged status => { state with daemonStatus := status }
  | .timelineEvent text kind => appendTimeline now state text kind
  | .reset => initialShellState

end Reducer

/-! ### The plan that is shown -/

/-- The plan the operator sees before and during an execution. -/
def ShellMode.shownPlan : ShellMode → Option PlanResponse
  | .previewing plan _ => some plan
  | .awaitingApproval plan _ => some plan
  | .executing plan _ => some plan
  | _ => none

def ShellMode.isExecuting : ShellMode → Bool
  | .executing _ _ => true
  | _ => false

/-- Does the action end an execution that is on? -/
def ShellAction.leavesExecuting : ShellAction → Bool
  | .intentSubmitted _ => true
  | .planReady _ => true
  | .jobCompleted _ => true
  | .executionReviewReady _ => true
  | .planErrored _ => true
  | .reset => true
  | _ => false

def ShellAction.bringsPlan : ShellAction → Bool
  | .planReady _ => true
  | _ => false

section

variable {now : String} {state : ShellState} {action : ShellAction} {plan : PlanResponse}

@[simp]
theorem appendTimeline_mode (text : String) (kind : TimelineEntryKind) :
    (appendTimeline now state text kind).mode = state.mode := rfl

@[simp]
theorem appendTimeline_intent (text : String) (kind : TimelineEntryKind) :
    (appendTimeline now state text kind).intent = state.intent := rfl

/-- A plan that is shown was shown before, with the same intent, or has just come. -/
theorem shown_shellReducer (h : (shellReducer now state action).mode.shownPlan = some plan) :
    (shellReducer now state action).intent = state.intent ∧
      (state.mode.shownPlan = some plan ∨ action = .planReady plan) := by
  cases action with
  | planReady p =>
    obtain rfl := Option.some.inj h
    exact ⟨rfl, .inr rfl⟩
  | intentSubmitted _ => cases h
  | planErrored _ => cases h
  | reset => cases h
  | timelineEvent _ _ => exact ⟨rfl, .inl h⟩
  | cancelRequested => exact ⟨rfl, .inl h⟩
  | daemonStatusChanged _ => exact ⟨rfl, .inl h⟩
  | jobCompleted outcome =>
    cases outcome <;> cases hmode : state.mode <;>
      simp_all [shellReducer, ShellMode.shownPlan]
  | _ =>
    cases hmode : state.mode <;> simp_all [shellReducer, ShellMode.shownPlan]

/-- An execution goes on under the other actions. -/
theorem executing_shellReducer (hmode : state.mode.isExecuting = true)
    (h : action.leavesExecuting = false) :
    (shellReducer now state action).mode.isExecuting = true := by
  obtain ⟨mode, intent, daemonStatus, timeline⟩ := state
  cases mode with
  | executing plan activeJobId => cases action <;> first | rfl | cases h
  | _ => cases hmode

/-- An execution that is on is ended. -/
theorem not_executing_shellReducer (hmode : state.mode.isExecuting = true)
    (h : action.leavesExecuting = true) :
    (shellReducer now state action).mode.isExecuting = false := by
  obtain ⟨mode, intent, daemonStatus, timeline⟩ := state
  cases mode with
  | executing plan activeJobId =>
    cases action with
    | jobCompleted outcome => cases outcome <;> rfl
    | _ => first | rfl | cases h
  | _ => cases hmode

/-- An execution is entered by an approval only. -/
theorem entered_shellReducer
    (hentered : (shellReducer now state action).mode.isExecuting = true) :
    state.mode.isExecuting = true ∨ action = .approvalGranted := by
  cases action with
  | approvalGranted => exact .inr rfl
  | jobCompleted outcome =>
    cases outcome <;> cases hmode : state.mode <;>
      simp_all [shellReducer, ShellMode.isExecuting]
  | intentSubmitted _ => cases hentered
  | planReady _ => cases hentered
  | planErrored _ => cases hentered
  | reset => cases hentered
  | timelineEvent _ _ => exact .inl hentered
  | cancelRequested => exact .inl hentered
  | daemonStatusChanged _ => exact .inl hentered
  | _ => cases hmode : state.mode <;> simp_all [shellReducer, ShellMode.isExecuting]

end

end Sysknife.Shell
