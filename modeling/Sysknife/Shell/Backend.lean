import Sysknife.Lib.Logged
import Sysknife.Shell.State

/-!
# The backend of the desktop shell

`execute_action` (`daemon_client.rs`) drives one step over its connection to the daemon: preview,
approval, execution. `approve_preview` (`commands.rs`) does so for each approved step until one
does not succeed, and emits the result and the outcome to the frontend.

A step is run against what comes back on its connection (`StepReplies`). What it sends, receives
and emits is kept in order (`Exchange`).

* `mem_logs_runSteps`: a step is run if every step before it succeeded.
* `executedUnder_iff`: a step is executed if and only if the daemon gave its preview and approval,
  and under that preview.
* `emitted_approvePreview`: what is emitted, for all steps and replies.
-/

namespace Sysknife.Shell

/-! ### Events -/

inductive DaemonJobOutcome
  | succeeded
  | needsReboot
  | failed
  | rolledBack
  deriving DecidableEq, Repr

/-- What an event carries. The identifier of a timeline entry is left out. -/
inductive Payload
  | timelineEntry (text : String)
  | executionResult (result : ExecutionResult)
  | jobCompleted (outcome : DaemonJobOutcome)
  | daemonStatus (status : String)

/-- An event and the name it is emitted under. -/
structure Emitted where
  name : String
  payload : Payload

/-- The application; it may be unable to emit an event of some name. -/
structure AppHandle where
  emitError : String → Option String

/-- One thing that happens while a step is run. -/
inductive Exchange
  | sent (request : Value)
  | received (response : Value)
  | emitted (event : Emitted)

/-- A part of the work on a step. -/
abbrev StepWork := Logged Exchange String

/-! ### One step -/

/-- What comes back when a message is awaited. -/
inductive Received
  | timedOut
  | failed (error : String)
  | notJson (error : String)
  | message (response : Value)

/-- What comes back on the connection of a step. `none` is a time-out; after the execute request
there may be any number of messages. -/
structure StepReplies where
  connect : Option (Except String Unit)
  sendPreview : Except String Unit
  preview : Received
  sendApproval : Except String Unit
  approval : Received
  sendExecute : Except String Unit
  execution : List Received

/-- `value[key].as_str()` -/
def text (value : Value) (key : String) : Option String := (value.get key).bind Value.asStr

section Step

variable (app : AppHandle)

def emit (name : String) (payload : Payload) : List Exchange :=
  match app.emitError name with
  | none => [.emitted ⟨name, payload⟩]
  | some _ => []

/-- `emit_timeline`; an error is ignored. -/
def emitTimeline (line : String) : StepWork Unit :=
  ⟨emit app "sysknife:timeline-entry" (.timelineEntry line), .ok ()⟩

def connect (socketPath : String) : Option (Except String Unit) → StepWork Unit
  | none => .throw "connection to daemon timed out"
  | some (.error e) => .throw ("cannot connect to daemon at " ++ socketPath ++ ": " ++ e)
  | some (.ok ()) => .pure ()

/-- `async_write_framed` -/
def send (request : Value) (failed : String) : Except String Unit → StepWork Unit
  | .error e => .throw (failed ++ e)
  | .ok () => ⟨[.sent request], .ok ()⟩

/-- `async_read_framed` under a time-out. -/
def receive (timedOut failed notJson : String) : Received → StepWork Value
  | .timedOut => .throw timedOut
  | .failed e => .throw (failed ++ e)
  | .notJson e => .throw (notJson ++ e)
  | .message response => ⟨[.received response], .ok response⟩

def previewRequest (actionName : String) (params : Value) : Value :=
  .obj [("type", .str "preview"), ("request_id", .str "shell-preview"),
    ("action_name", .str actionName), ("params", params)]

def approveRequest (transactionId : String) : Value :=
  .obj [("type", .str "approve"), ("request_id", .str "shell-approve"),
    ("transaction_id", .str transactionId)]

def executeRequest (transactionId actionName : String) (params : Value)
    (approvalReceipt : String) : Value :=
  .obj [("type", .str "execute"), ("request_id", .str "shell-execute"),
    ("transaction_id", .str transactionId), ("action_name", .str actionName), ("params", params),
    ("approval_receipt", .str approvalReceipt)]

/-- A text out of the response to a request: of one type, an error, or anything else. -/
def answered (expected key missing rejected unexpected : String) (response : Value) :
    StepWork String :=
  if text response "type" = some expected then
    match text response key with
    | some answer => .pure answer
    | none => .throw missing
  else if text response "type" = some "error_response" then
    .throw (rejected ++ (text response "category").getD "unknown" ++ "): " ++
      (text response "message").getD "no message")
  else .throw (unexpected ++ (text response "type").getD "<missing>")

/-- The transaction of a preview. -/
def previewedTransaction (actionName : String) : Value → StepWork String :=
  answered "preview_response" "transaction_id" "preview_response missing transaction_id field"
    ("daemon rejected preview for '" ++ actionName ++ "' (") "unexpected response type to preview: "

/-- The receipt of an approval. -/
def approvalReceipt : Value → StepWork String :=
  answered "approval_response" "approval_receipt" "approval_response missing receipt"
    "daemon rejected approval (" "unexpected response type to approval: "

/-- A line of output that is kept and shown, unless it is empty. -/
def showLine (line : Option String) : StepWork (List String) := do
  match line with
  | none => return []
  | some line =>
    if line = "" then return []
    else
      emitTimeline app line
      return [line]

def executeTimedOut : String :=
  "daemon execute timed out after 600s; the job may still be running on the daemon side"

/-- The loop over the messages of an execution: the final status, and the lines collected. -/
def readExecution (actionName : String) (collectedLines : List String) :
    List Received → StepWork (String × List String)
  | [] => .throw executeTimedOut
  | next :: rest => do
    let msg ← receive executeTimedOut "failed to read execute response: "
      "invalid JSON in execute response: " next
    match text msg "type" with
    | some "job_started" =>
      emitTimeline app ("Executing " ++ actionName ++ "…")
      readExecution actionName collectedLines rest
    | some "job_progress" =>
      let lines ← showLine app (text msg "line")
      readExecution actionName (collectedLines ++ lines) rest
    | some "job_completed" =>
      let result := (msg.get "result").getD .null
      let lines ← showLine app (text result "summary")
      return ((text result "status").getD "failed", collectedLines ++ lines)
    | some "error_response" => .throw ("daemon error during execute (" ++
        (text msg "category").getD "unknown" ++ "): " ++ (text msg "message").getD "no message")
    | other =>
      .throw ("unexpected response type during execute: " ++ other.getD "<missing>")

def executeAction (socketPath actionName : String) (params : Value) (replies : StepReplies) :
    StepWork (String × List String) := do
  connect socketPath replies.connect
  send (previewRequest actionName params) "failed to send preview request: " replies.sendPreview
  let preview ← receive "timed out waiting for preview response"
    "failed to read preview response: " "invalid JSON in preview response: " replies.preview
  let transactionId ← previewedTransaction actionName preview
  emitTimeline app ("Preview ready for " ++ actionName)
  send (approveRequest transactionId) "failed to send approval request: " replies.sendApproval
  let approval ← receive "timed out waiting for approval receipt"
    "failed to read approval response: " "invalid JSON in approval response: " replies.approval
  let receipt ← approvalReceipt approval
  send (executeRequest transactionId actionName params receipt)
    "failed to send execute request: " replies.sendExecute
  readExecution app actionName [] replies.execution

end Step

/-! ### All steps -/

/-- A step the frontend asks to have executed. -/
structure PlanStepRequest where
  actionName : String
  params : Value

/-- The report on a step. -/
def stepOutput (step : PlanStepRequest) : Except String (String × List String) → StepOutput
  | .ok (status, lines) => ⟨step.actionName, status, lines⟩
  | .error e => ⟨step.actionName, "failed", [e]⟩

/-- What the loop over the steps has come to. -/
structure StepsRun where
  finalStatus : String
  stepOutputs : List StepOutput
  /-- What happened, step by step. -/
  logs : List (List Exchange)

section Steps

variable (app : AppHandle) (socketPath : String)

/-- `'steps`: until one does not succeed. -/
def runSteps (done : StepsRun) : List (PlanStepRequest × StepReplies) → StepsRun
  | [] => done
  | (step, replies) :: rest =>
    let run := executeAction app socketPath step.actionName step.params replies
    let output := stepOutput step run.result
    let done := ⟨output.status, done.stepOutputs ++ [output], done.logs ++ [run.log]⟩
    if output.status = "succeeded" then runSteps done rest else done

/-- The outcome of a final status. -/
def jobOutcome : String → DaemonJobOutcome
  | "succeeded" => .succeeded
  | "needs_reboot" => .needsReboot
  | "rolled_back" => .rolledBack
  | _ => .failed

/-- What the steps came to, what was emitted after them, and the result. -/
structure Approved where
  run : StepsRun
  emitted : List Exchange
  result : Except String Unit

def executionResult (run : StepsRun) : ExecutionResult := ⟨run.finalStatus, run.stepOutputs⟩

def approvePreview (steps : List (PlanStepRequest × StepReplies)) : Approved :=
  let run := runSteps app socketPath ⟨"succeeded", [], []⟩ steps
  let result := emit app "sysknife:execution-result" (.executionResult (executionResult run))
  let completed := emit app "sysknife:job-completed" (.jobCompleted (jobOutcome run.finalStatus))
  -- the result is emitted first, so that the frontend has it when the outcome comes
  match app.emitError "sysknife:execution-result", app.emitError "sysknife:job-completed" with
  | some e, _ => ⟨run, [], .error ("failed to emit sysknife:execution-result: " ++ e)⟩
  | none, some e => ⟨run, result, .error ("failed to emit sysknife:job-completed: " ++ e)⟩
  | none, none => ⟨run, result ++ completed, .ok ()⟩

end Steps

theorem run_approvePreview (app : AppHandle) (socketPath : String)
    (steps : List (PlanStepRequest × StepReplies)) :
    (approvePreview app socketPath steps).run =
      runSteps app socketPath ⟨"succeeded", [], []⟩ steps := by
  rw [approvePreview]
  cases app.emitError "sysknife:execution-result" with
  | some e => rfl
  | none => cases app.emitError "sysknife:job-completed" <;> rfl

/-! ### When a step is executed -/

/-- The daemon answers the preview and the approval of a step, and takes the execute request. -/
structure Accepted (replies : StepReplies) (preview approval : Value)
    (transactionId receipt : String) : Prop where
  hconnect : replies.connect = some (.ok ())
  hsendPreview : replies.sendPreview = .ok ()
  hpreview : replies.preview = .message preview
  hpreviewed : text preview "type" = some "preview_response"
  htransaction : text preview "transaction_id" = some transactionId
  hsendApproval : replies.sendApproval = .ok ()
  happroval : replies.approval = .message approval
  happroved : text approval "type" = some "approval_response"
  hreceipt : text approval "approval_receipt" = some receipt
  hsendExecute : replies.sendExecute = .ok ()

/-- The daemon reports that the execution succeeded. -/
def reportsSucceeded : List Received → Bool
  | .message msg :: rest =>
    match text msg "type" with
    | some "job_started" => reportsSucceeded rest
    | some "job_progress" => reportsSucceeded rest
    | some "job_completed" =>
      (text ((msg.get "result").getD .null) "status").getD "failed" == "succeeded"
    | _ => false
  | _ => false

section Executed

variable {app : AppHandle} {socketPath actionName transactionId receipt : String} {params : Value}
  {replies : StepReplies} {preview approval : Value}

theorem not_sent_of_emit {name : String} {payload : Payload} {request : Value} :
    .sent request ∉ emit app name payload := by
  unfold emit
  split <;> simp

theorem not_received_of_emit {name : String} {payload : Payload} {response : Value} :
    .received response ∉ emit app name payload := by
  unfold emit
  split <;> simp

theorem connect_eq_ok {r : Option (Except String Unit)} {u : Unit}
    (h : (connect socketPath r).result = .ok u) : r = some (.ok ()) := by
  rcases r with _ | _ | ⟨⟩
  · cases h
  · cases h
  · rfl

theorem send_eq_ok {request : Value} {failed : String} {r : Except String Unit} {u : Unit}
    (h : (send request failed r).result = .ok u) : r = .ok () := by
  cases r with
  | error e => cases h
  | ok _ => rfl

theorem receive_eq_ok {timedOut failed notJson : String} {r : Received} {response : Value}
    (h : (receive timedOut failed notJson r).result = .ok response) : r = .message response := by
  cases r with
  | message _ => rw [← Except.ok.inj h]
  | _ => cases h

section Answered

variable {expected key missing rejected unexpected answer : String} {response : Value}

theorem answered_of_type (htype : text response "type" = some expected)
    (hkey : text response key = some answer) :
    answered expected key missing rejected unexpected response = ⟨[], .ok answer⟩ := by
  rw [answered, if_pos htype, hkey]
  rfl

theorem answered_eq_ok
    (h : (answered expected key missing rejected unexpected response).result = .ok answer) :
    text response "type" = some expected ∧ text response key = some answer := by
  rw [answered] at h
  split_ifs at h with htype
  · cases hkey : text response key with
    | none =>
      rw [hkey] at h
      cases h
    | some answer' =>
      rw [hkey] at h
      exact ⟨htype, congrArg some (Except.ok.inj h)⟩
  all_goals cases h

theorem log_answered :
    (answered expected key missing rejected unexpected response).log = [] := by
  rw [answered]
  split_ifs
  · cases text response key <;> rfl
  · rfl
  · rfl

end Answered

/-- What an accepted step sends and receives before its execution. -/
def prelude (app : AppHandle) (actionName : String) (params : Value) (transactionId : String)
    (preview approval : Value) : List Exchange :=
  .sent (previewRequest actionName params) :: .received preview ::
    (emit app "sysknife:timeline-entry" (.timelineEntry ("Preview ready for " ++ actionName)) ++
      [.sent (approveRequest transactionId), .received approval])

/-- An accepted step goes on to its execution. -/
theorem executeAction_of_accepted (h : Accepted replies preview approval transactionId receipt) :
    executeAction app socketPath actionName params replies =
      ⟨prelude app actionName params transactionId preview approval ++
          (.sent (executeRequest transactionId actionName params receipt) ::
            (readExecution app actionName [] replies.execution).log),
        (readExecution app actionName [] replies.execution).result⟩ := by
  have hconnect : connect socketPath replies.connect = ⟨[], .ok ()⟩ := by
    rw [h.hconnect]
    rfl
  have htaken : previewedTransaction actionName preview = ⟨[], .ok transactionId⟩ :=
    answered_of_type h.hpreviewed h.htransaction
  have hgiven : approvalReceipt approval = ⟨[], .ok receipt⟩ :=
    answered_of_type h.happroved h.hreceipt
  rw [executeAction, hconnect, h.hsendPreview, h.hpreview, h.hsendApproval, h.happroval,
    h.hsendExecute]
  simp [send, receive, htaken, hgiven, emitTimeline, prelude]

theorem log_connect (r : Option (Except String Unit)) : (connect socketPath r).log = [] := by
  rcases r with _ | _ | _ <;> rfl

theorem log_receive {timedOut failed notJson : String} {r : Received} {x : Exchange}
    (h : x ∈ (receive timedOut failed notJson r).log) : ∃ response, x = .received response := by
  cases r with
  | message response => exact ⟨response, List.mem_singleton.mp h⟩
  | _ => exact absurd h List.not_mem_nil

theorem log_send {request : Value} {failed : String} {r : Except String Unit} {x : Exchange}
    (h : x ∈ (send request failed r).log) : x = .sent request ∧ r = .ok () := by
  cases r with
  | error e => exact absurd h List.not_mem_nil
  | ok u => exact ⟨List.mem_singleton.mp h, rfl⟩

/-- While an execution is followed, messages come in and lines are shown. -/
def Followed (x : Exchange) : Prop :=
  (∃ response, x = .received response) ∨
    ∃ line, x = .emitted ⟨"sysknife:timeline-entry", .timelineEntry line⟩

theorem all_receive (timedOut failed notJson : String) (r : Received) :
    (receive timedOut failed notJson r).All Followed := fun _ h => .inl (log_receive h)

theorem all_emitTimeline (line : String) : (emitTimeline app line).All Followed := by
  intro x hx
  rw [emitTimeline, emit] at hx
  split at hx
  · exact .inr ⟨line, List.mem_singleton.mp hx⟩
  · exact absurd hx List.not_mem_nil

theorem all_showLine (line : Option String) : (showLine app line).All Followed := by
  cases line with
  | none => exact Logged.all_of_log rfl
  | some line =>
    rw [showLine]
    split_ifs
    · exact Logged.all_of_log rfl
    · exact (all_emitTimeline line).bind fun _ => Logged.all_of_log rfl

/-- Showing a line never fails. -/
theorem exists_showLine (line : Option String) :
    ∃ log lines, showLine app line = ⟨log, .ok lines⟩ := by
  cases line with
  | none => exact ⟨[], [], rfl⟩
  | some line =>
    rw [showLine]
    split_ifs
    · exact ⟨[], [], rfl⟩
    · exact ⟨_, [line], rfl⟩

theorem all_readExecution (collectedLines : List String) (stream : List Received) :
    (readExecution app actionName collectedLines stream).All Followed := by
  induction stream generalizing collectedLines with
  | nil => exact Logged.all_of_log rfl
  | cons next rest ih =>
    refine (all_receive _ _ _ next).bind fun msg => ?_
    dsimp only
    split
    · exact (all_emitTimeline _).bind fun _ => ih collectedLines
    · exact (all_showLine _).bind fun lines => ih (collectedLines ++ lines)
    · exact (all_showLine _).bind fun lines => Logged.all_of_log rfl
    · exact Logged.all_of_log rfl
    · exact Logged.all_of_log rfl

/-- An execute request is sent. -/
def IsExecute (x : Exchange) : Prop :=
  ∃ request, x = .sent request ∧ text request "type" = some "execute"

theorem not_isExecute_of_followed {x : Exchange} (h : Followed x) : ¬ IsExecute x := by
  rintro ⟨request, rfl, -⟩
  rcases h with ⟨_, heq⟩ | ⟨_, heq⟩
  · cases heq
  · cases heq

theorem not_isExecute_send {request : Value} {failed : String} {r : Except String Unit}
    (h : text request "type" ≠ some "execute") :
    (send request failed r).All fun x => ¬ IsExecute x := by
  rintro x hx ⟨request', rfl, htype⟩
  obtain rfl := Exchange.sent.inj (log_send hx).1
  exact h htype

/-- A step is past its approval only if the daemon accepted it. -/
theorem accepted_of_past
    (h : Logged.Past IsExecute (executeAction app socketPath actionName params replies)) :
    ∃ preview approval transactionId receipt,
      Accepted replies preview approval transactionId receipt := by
  obtain ⟨_, hconnect, h⟩ := h.of_bind (Logged.all_of_log (log_connect _))
  obtain ⟨_, hsendPreview, h⟩ := h.of_bind (not_isExecute_send (by
    simp [text, previewRequest, Value.get, Value.asStr]))
  obtain ⟨preview, hpreview, h⟩ :=
    h.of_bind ((all_receive _ _ _ _).mono fun _ => not_isExecute_of_followed)
  obtain ⟨transactionId, hpreviewed, h⟩ := h.of_bind (Logged.all_of_log log_answered)
  obtain ⟨_, _, h⟩ := h.of_bind ((all_emitTimeline _).mono fun _ => not_isExecute_of_followed)
  obtain ⟨_, hsendApproval, h⟩ := h.of_bind (not_isExecute_send (by
    simp [text, approveRequest, Value.get, Value.asStr]))
  obtain ⟨approval, happroval, h⟩ :=
    h.of_bind ((all_receive _ _ _ _).mono fun _ => not_isExecute_of_followed)
  obtain ⟨receipt, happroved, h⟩ := h.of_bind (Logged.all_of_log log_answered)
  have hsendExecute : replies.sendExecute = .ok () := by
    cases hsend : replies.sendExecute with
    | ok _ => rfl
    | error e =>
      rw [hsend] at h
      obtain ⟨_, hsent, -⟩ := h.of_bind (Logged.all_of_log rfl)
      cases hsent
  obtain ⟨hpreviewed, htransaction⟩ := answered_eq_ok hpreviewed
  obtain ⟨happroved, hreceipt⟩ := answered_eq_ok happroved
  exact ⟨preview, approval, transactionId, receipt,
    { hconnect := connect_eq_ok hconnect
      hsendPreview := send_eq_ok hsendPreview
      hpreview := receive_eq_ok hpreview
      hpreviewed := hpreviewed
      htransaction := htransaction
      hsendApproval := send_eq_ok hsendApproval
      happroval := receive_eq_ok happroval
      happroved := happroved
      hreceipt := hreceipt
      hsendExecute := hsendExecute }⟩

/-- Following an execution ends in success if and only if that is reported. -/
theorem readExecution_succeeded {collectedLines : List String} {stream : List Received} :
    (∃ lines, (readExecution app actionName collectedLines stream).result =
        .ok ("succeeded", lines)) ↔ reportsSucceeded stream = true := by
  induction stream generalizing collectedLines with
  | nil => simp [readExecution, reportsSucceeded, Logged.throw]
  | cons next rest ih =>
    cases next with
    | message msg =>
      rw [readExecution, reportsSucceeded, receive, Logged.mk_ok_bind]
      dsimp only
      generalize text msg "type" = type
      split
      · exact ih
      · obtain ⟨log, lines, hlines⟩ := @exists_showLine app (text msg "line")
        rw [hlines]
        exact ih
      · obtain ⟨log, lines, hlines⟩ :=
          @exists_showLine app (text ((msg.get "result").getD .null) "summary")
        rw [hlines, Logged.mk_ok_bind]
        generalize (text ((msg.get "result").getD .null) "status").getD "failed" = status
        show (∃ l, (.ok (status, collectedLines ++ lines) : Except String _) =
          .ok ("succeeded", l)) ↔ (status == "succeeded") = true
        rw [beq_iff_eq]
        constructor
        · rintro ⟨l, heq⟩
          exact (Prod.mk.inj (Except.ok.inj heq)).1
        · rintro rfl
          exact ⟨collectedLines ++ lines, rfl⟩
      · simp [Logged.throw]
      · next hstarted hprogress hcompleted _ =>
        have hnot : ¬ ∃ lines, (Logged.throw ("unexpected response type during execute: " ++
            type.getD "<missing>") : StepWork (String × List String)).result =
              .ok ("succeeded", lines) := by
          rintro ⟨_, heq⟩
          cases heq
        refine iff_of_false hnot ?_
        split
        · exact absurd rfl hstarted
        · exact absurd rfl hprogress
        · exact absurd rfl hcompleted
        · exact Bool.false_ne_true
    | _ => simp [readExecution, reportsSucceeded, receive, Logged.throw]

/-- The step is executed with success. -/
def Succeeds (replies : StepReplies) : Prop :=
  (∃ preview approval transactionId receipt,
    Accepted replies preview approval transactionId receipt) ∧
  reportsSucceeded replies.execution = true

/-- The loop goes on after a step that succeeds. -/
theorem status_eq_succeeded {step : PlanStepRequest} :
    (stepOutput step (executeAction app socketPath actionName params replies).result).status =
      "succeeded" ↔ Succeeds replies := by
  constructor
  · intro h
    cases hresult : (executeAction app socketPath actionName params replies).result with
    | error e =>
      rw [hresult] at h
      have hfailed : "failed" = "succeeded" := h
      exact absurd hfailed (by decide)
    | ok output =>
      have haccepted := accepted_of_past (.inl ⟨output, hresult⟩)
      refine ⟨haccepted, ?_⟩
      obtain ⟨preview, approval, transactionId, receipt, haccepted⟩ := haccepted
      obtain ⟨status, lines⟩ := output
      rw [hresult] at h
      obtain rfl : status = "succeeded" := h
      rw [executeAction_of_accepted haccepted] at hresult
      exact readExecution_succeeded.mp ⟨lines, hresult⟩
  · rintro ⟨⟨preview, approval, transactionId, receipt, haccepted⟩, hsucceeded⟩
    obtain ⟨lines, hlines⟩ :=
      (@readExecution_succeeded app actionName [] replies.execution).mpr hsucceeded
    rw [executeAction_of_accepted haccepted]
    dsimp only
    rw [hlines]
    rfl

end Executed

/-! ### Which steps are run -/

section Logs

variable {app : AppHandle} {socketPath : String}

/-- What happened in a step that is run: every step before it succeeded. -/
def RunLog (app : AppHandle) (socketPath : String) (steps : List (PlanStepRequest × StepReplies))
    (log : List Exchange) : Prop :=
  ∃ before step replies after, steps = before ++ (step, replies) :: after ∧
    (∀ s ∈ before, Succeeds s.2) ∧
      log = (executeAction app socketPath step.actionName step.params replies).log

theorem runLog_cons {step : PlanStepRequest} {replies : StepReplies}
    {rest : List (PlanStepRequest × StepReplies)} {log : List Exchange} :
    RunLog app socketPath ((step, replies) :: rest) log ↔
      log = (executeAction app socketPath step.actionName step.params replies).log ∨
        Succeeds replies ∧ RunLog app socketPath rest log := by
  constructor
  · rintro ⟨before, step', replies', after, heq, hbefore, hlog⟩
    rcases List.cons_eq_append_iff.mp heq with ⟨-, htail⟩ | ⟨before', rfl, hrest⟩
    · obtain ⟨hhead, -⟩ := List.cons.inj htail
      obtain ⟨rfl, rfl⟩ := Prod.mk.inj hhead
      exact .inl hlog
    · obtain ⟨hfirst, hbefore⟩ := List.forall_mem_cons.mp hbefore
      exact .inr ⟨hfirst, before', step', replies', after, hrest, hbefore, hlog⟩
  · rintro (hlog | ⟨hfirst, before, step', replies', after, hrest, hbefore, hlog⟩)
    · exact ⟨[], step, replies, rest, rfl, fun _ h => absurd h List.not_mem_nil, hlog⟩
    · exact ⟨(step, replies) :: before, step', replies', after, congrArg _ hrest,
        List.forall_mem_cons.mpr ⟨hfirst, hbefore⟩, hlog⟩

/-- Only these steps are run. -/
theorem mem_logs_runSteps {steps : List (PlanStepRequest × StepReplies)} {done : StepsRun}
    {log : List Exchange} : log ∈ (runSteps app socketPath done steps).logs ↔
      log ∈ done.logs ∨ RunLog app socketPath steps log := by
  induction steps generalizing done with
  | nil =>
    refine (or_iff_left ?_).symm
    rintro ⟨before, step, replies, after, heq, -⟩
    exact List.cons_ne_nil _ _ (List.append_eq_nil_iff.mp heq.symm).2
  | cons s rest ih =>
    obtain ⟨step, replies⟩ := s
    have hstatus := @status_eq_succeeded app socketPath step.actionName step.params replies step
    rw [runSteps, runLog_cons, ← or_assoc]
    split_ifs with hsucceeded
    · rw [ih, List.mem_append, List.mem_singleton, and_iff_right (hstatus.mp hsucceeded)]
    · have hstops : ¬ (Succeeds replies ∧ RunLog app socketPath rest log) :=
        fun h => hsucceeded (hstatus.mpr h.1)
      rw [List.mem_append, List.mem_singleton, or_iff_left hstops]

/-! ### What is executed -/

/-- An execution is requested under this preview. -/
def ExecutedUnder (log : List Exchange) (preview : Value) : Prop :=
  ∃ before request after, log = before ++ .sent request :: after ∧
    text request "type" = some "execute" ∧ .received preview ∈ before ∧
    text preview "type" = some "preview_response" ∧
    text preview "transaction_id" = text request "transaction_id"

theorem not_isExecute_prelude (actionName : String) (params : Value) (transactionId : String)
    (preview approval : Value) :
    ∀ x ∈ prelude app actionName params transactionId preview approval, ¬ IsExecute x := by
  rintro x hx ⟨request, rfl, htype⟩
  simp only [prelude, List.mem_cons, List.mem_append, List.not_mem_nil, or_false,
    Exchange.sent.injEq, reduceCtorEq, false_or] at hx
  rcases hx with rfl | hx | rfl
  · simp [text, previewRequest, Value.get, Value.asStr] at htype
  · exact not_sent_of_emit hx
  · simp [text, approveRequest, Value.get, Value.asStr] at htype

theorem received_mem_prelude {actionName transactionId : String} {params preview approval : Value}
    {response : Value}
    (h : .received response ∈ prelude app actionName params transactionId preview approval) :
    response = preview ∨ response = approval := by
  simp only [prelude, List.mem_cons, List.mem_append, List.not_mem_nil, or_false,
    Exchange.received.injEq, reduceCtorEq, false_or] at h
  rcases h with h | h | h
  · exact .inl h
  · exact absurd h not_received_of_emit
  · exact .inr h

/-- **A step is executed under the preview that the daemon gave for it.** -/
theorem executedUnder_iff {step : PlanStepRequest} {replies : StepReplies} {preview : Value} :
    ExecutedUnder (executeAction app socketPath step.actionName step.params replies).log preview ↔
      ∃ approval transactionId receipt,
        Accepted replies preview approval transactionId receipt := by
  constructor
  · rintro ⟨before, request, after, hlog, htype, hbefore, hpreviewed, -⟩
    have hsent : .sent request ∈
        (executeAction app socketPath step.actionName step.params replies).log := by
      rw [hlog]
      exact List.mem_append_right _ List.mem_cons_self
    obtain ⟨preview', approval, transactionId, receipt, haccepted⟩ :=
      accepted_of_past (.inr ⟨_, hsent, request, rfl, htype⟩)
    rw [executeAction_of_accepted haccepted] at hlog
    obtain rfl := Logged.split_unique (P := IsExecute) hlog.symm ⟨request, rfl, htype⟩
      (not_isExecute_prelude _ _ _ _ _)
      ((all_readExecution _ _).mono fun _ => not_isExecute_of_followed)
    rcases received_mem_prelude hbefore with rfl | rfl
    · exact ⟨approval, transactionId, receipt, haccepted⟩
    · exact absurd (haccepted.happroved.symm.trans hpreviewed) (by decide)
  · rintro ⟨approval, transactionId, receipt, haccepted⟩
    rw [executeAction_of_accepted haccepted]
    refine ⟨_, _, _, rfl, ?_, ?_, haccepted.hpreviewed, haccepted.htransaction.trans ?_⟩
    · rfl
    · exact List.mem_cons_of_mem _ List.mem_cons_self
    · rfl

end Logs

/-! ### What is emitted -/

/-- The events among what happened. -/
def events (log : List Exchange) : List Emitted :=
  log.filterMap fun
    | .emitted event => some event
    | _ => none

/-- Everything that was emitted, in order. -/
def Approved.events (approved : Approved) : List Emitted :=
  Shell.events (approved.run.logs.flatten ++ approved.emitted)

/-- A line of the timeline as it is emitted. -/
def timelineEntry (line : String) : Emitted := ⟨"sysknife:timeline-entry", .timelineEntry line⟩

/-- Of events, only lines of the timeline. -/
def Quiet (x : Exchange) : Prop := ∀ event, x = .emitted event → ∃ line, event = timelineEntry line

section Emitted

variable {app : AppHandle} {socketPath actionName : String} {params : Value}
  {replies : StepReplies} {steps : List (PlanStepRequest × StepReplies)}

theorem quiet_of_followed {x : Exchange} (h : Followed x) : Quiet x := by
  rintro event rfl
  rcases h with ⟨_, heq⟩ | ⟨line, heq⟩
  · cases heq
  · exact ⟨line, Exchange.emitted.inj heq⟩

theorem all_send (request : Value) (failed : String) (r : Except String Unit) :
    (send request failed r).All Quiet := by
  rintro x hx event rfl
  cases (log_send hx).1

theorem quiet_executeAction :
    (executeAction app socketPath actionName params replies).All Quiet := by
  refine (Logged.all_of_log (log_connect _)).bind fun _ => (all_send _ _ _).bind fun _ => ?_
  refine ((all_receive _ _ _ _).mono fun _ => quiet_of_followed).bind fun _ => ?_
  refine (Logged.all_of_log log_answered).bind fun _ => ?_
  refine ((all_emitTimeline _).mono fun _ => quiet_of_followed).bind fun _ => ?_
  refine (all_send _ _ _).bind fun _ => ?_
  refine ((all_receive _ _ _ _).mono fun _ => quiet_of_followed).bind fun _ => ?_
  refine (Logged.all_of_log log_answered).bind fun _ => (all_send _ _ _).bind fun _ => ?_
  exact (all_readExecution _ _).mono fun _ => quiet_of_followed

/-- Events that are lines of the timeline are those of a list of lines. -/
theorem exists_lines {log : List Exchange} (h : ∀ x ∈ log, Quiet x) :
    ∃ lines : List String, events log = lines.map timelineEntry := by
  induction log with
  | nil => exact ⟨[], rfl⟩
  | cons x log ih =>
    obtain ⟨hx, hlog⟩ := List.forall_mem_cons.mp h
    obtain ⟨lines, hlines⟩ := ih hlog
    cases x with
    | emitted event =>
      obtain ⟨line, rfl⟩ := hx event rfl
      exact ⟨line :: lines, congrArg (timelineEntry line :: ·) hlines⟩
    | _ => exact ⟨lines, hlines⟩

/-- **What is emitted**: lines of the timeline, then the result and the outcome. -/
theorem emitted_approvePreview
    (h : (approvePreview app socketPath steps).result = .ok ()) : ∃ lines : List String,
      (approvePreview app socketPath steps).events = lines.map timelineEntry ++
        [⟨"sysknife:execution-result",
            .executionResult (executionResult (approvePreview app socketPath steps).run)⟩,
          ⟨"sysknife:job-completed",
            .jobCompleted (jobOutcome (approvePreview app socketPath steps).run.finalStatus)⟩] := by
  have hlogs : ∀ x ∈ (runSteps app socketPath ⟨"succeeded", [], []⟩ steps).logs.flatten,
      Quiet x := by
    intro x hx
    obtain ⟨log, hlog, hx⟩ := List.mem_flatten.mp hx
    rcases mem_logs_runSteps.mp hlog with hlog | ⟨_, step, replies, _, -, -, rfl⟩
    · cases hlog
    · exact quiet_executeAction x hx
  obtain ⟨lines, hlines⟩ := exists_lines hlogs
  refine ⟨lines, ?_⟩
  cases hresult : app.emitError "sysknife:execution-result" with
  | some e =>
    simp only [approvePreview, hresult] at h
    cases h
  | none =>
    cases hcompleted : app.emitError "sysknife:job-completed" with
    | some e =>
      simp only [approvePreview, hresult, hcompleted] at h
      cases h
    | none =>
      simp only [approvePreview, hresult, hcompleted, emit]
      rw [Approved.events, events, List.filterMap_append, ← events, hlines]
      rfl

end Emitted

end Sysknife.Shell
