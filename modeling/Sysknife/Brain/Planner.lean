import Sysknife.Brain.Fence
import Sysknife.Brain.ProposePlan
import Sysknife.Brain.QueryTools

/-!
# The planning loop

`LlmPlanner` asks a provider turn by turn, carries out the tool calls of each completion and
returns the plan of the first `propose_plan` call that is valid. What the provider, the state
client and the rate limiter answer is open: each is a function of a world of its own, which it may
change. A run leaves a log of its turns behind.

* `CallSpec`, `CallsSpec`, `TurnSpec`, `RunSpec`: what one call, the calls of a completion, a turn
  and a run do; each is proved from the one before.
* `planned_iff`: **a run keeps its promises if and only if no text that it has normalised has an
  escape sequence that ends within a character.**
-/

namespace Sysknife.Brain

open Slices

/-- `PROVIDER_RETRY_LIMIT` -/
def providerRetryLimit : ℕ := 2

/-- `INTENT_MAX_BYTES` -/
def intentMaxBytes : ℕ := 2048

/-- `NOTICE_FRAGMENT_MAX_BYTES` -/
def noticeFragmentMaxBytes : ℕ := 1024

/-- The state of the system, as the model sees it. -/
structure CuratedState where
  hostName : String
  deployment : String
  services : List String
  flatpaks : List String
  toolboxes : List String
  layeredPackages : List String
  containers : List String
  users : List String

/-- `serde_json::to_string(&state)` -/
def CuratedState.json (state : CuratedState) : String :=
  "\x7b\"host_name\":" ++ Value.quote state.hostName ++
    ",\"deployment\":" ++ Value.quote state.deployment ++
    ",\"services\":" ++ Value.renderStrings state.services ++
    ",\"flatpaks\":" ++ Value.renderStrings state.flatpaks ++
    ",\"toolboxes\":" ++ Value.renderStrings state.toolboxes ++
    ",\"layered_packages\":" ++ Value.renderStrings state.layeredPackages ++
    ",\"containers\":" ++ Value.renderStrings state.containers ++
    ",\"users\":" ++ Value.renderStrings state.users ++ "\x7d"

/-- An entry of the safety audit log. -/
structure Rejection where
  intent : String
  reason : String
  rawPlan : String

/-- What a planner can change: the world of its provider and clients, the preference file, and the
audit log, if it has one. -/
structure Host (σ : Type) where
  world : σ
  prefs : Option (List Char)
  audit : Option (List Rejection)

def Host.logRejection {σ : Type} (host : Host σ) (intent reason rawPlan : String) : Host σ :=
  { host with audit := host.audit.map (· ++ [⟨intent, reason, rawPlan⟩]) }

/-- `LlmPlanner` -/
structure Planner (σ : Type) where
  complete : String → List Message → List ToolDefinition → σ → Except ProviderError Completion × σ
  curatedState : σ → Except PlanningError CuratedState × σ
  queryAction : String → Value → σ → Except PlanningError String × σ
  currentUser : σ → Except PlanningError String × σ
  rateLimiter : Option (σ → Except ℕ Unit × σ)
  prefsPath : Option String
  /-- The tools that are offered. -/
  tools : List ToolDefinition
  buildSystemPrompt : Option (List Char) → String
  maxTurns : ℕ
  maxTurns_pos : 1 ≤ maxTurns

/-! ### Asking the provider -/

/-- What is said before a call is made again that named a tool that does not exist. -/
def toolCallCorrection (e : ProviderError) (tools : List ToolDefinition) : Option String :=
  if !e.isInvalidToolCall then none
  else
    some ("Your previous response was rejected: it called a tool that does not exist. " ++
      "Call one of these tools by its exact name: " ++
      ", ".intercalate (tools.map ToolDefinition.name) ++
      ". Emit a real tool call, not a JSON object describing one, and do not wrap " ++
      "the call in another name. If the plan you had in mind was correct, send " ++
      "the same plan through `propose_plan`.")

/-- One call of the provider. -/
structure Attempt where
  messages : List Message
  answer : Except ProviderError Completion

section Loop

variable {σ : Type} (lib : Library) (p : Planner σ)

/-- A token of the rate limiter, if there is one. -/
def consume (host : Host σ) : Except ℕ Unit × Host σ :=
  match p.rateLimiter with
  | none => (.ok (), host)
  | some check =>
    let (answer, world) := check host.world
    (answer, { host with world := world })

/-- `complete_with_retry`, with so many retries left. -/
def completeWithRetry (system : String) :
    ℕ → List Message → Host σ → Except ProviderError Completion × List Attempt × Host σ
  | left, messages, host =>
    let (answer, world) := p.complete system messages p.tools host.world
    let host := { host with world := world }
    match answer, left with
    | .ok completion, _ => (.ok completion, [⟨messages, .ok completion⟩], host)
    | .error e, 0 => (.error e, [⟨messages, .error e⟩], host)
    | .error e, left + 1 =>
      if !e.isRetryable then (.error e, [⟨messages, .error e⟩], host)
      else
        let corrected := messages ++ ((toolCallCorrection e p.tools).map Message.userText).toList
        match consume p host with
        | (.error _, host) => (.error e, [⟨messages, .error e⟩], host)
        | (.ok (), host) =>
          let (last, attempts, host) := completeWithRetry system left corrected host
          (last, ⟨messages, .error e⟩ :: attempts, host)

/-! ### The tools -/

/-- The tools by what is done at a call. -/
inductive Tool
  | systemState
  | proposePlan
  | refuse
  | pref (kind : PrefChangeKind)
  | currentUser
  | other
  deriving DecidableEq, Repr

def toolOf : String → Tool
  | "get_system_state" => .systemState
  | "propose_plan" => .proposePlan
  | "refuse" => .refuse
  | "remember" => .pref .remember
  | "forget" => .pref .forget
  | "query_current_user" => .currentUser
  | _ => .other

/-- What a call of a tool ends in: a result, and perhaps a change for the queue; or the end of
planning. -/
inductive Handled
  | reply (result : ToolResultBlock) (queued : Option PendingPrefChange)
  | plan (plan : Plan)
  | stop (e : PlanningError)

def ToolCall.result (call : ToolCall) (content : String) (isError : Bool) : ToolResultBlock :=
  ⟨call.id, call.callId, content, isError⟩

/-- `sanitize_tool_output(..).into_tool_result(..)` -/
def sanitizedResult (call : ToolCall) (raw : String) (isError : Bool) : Except Panic Handled := do
  let text ← sanitizeToolOutputCapped lib.nfc call.name.toList raw.toList maxOutputBytes
  return .reply (call.result (String.ofList text) isError) none

/-- A piece of a notice on the terminal. -/
def terminalFragment (raw : String) : Except Panic (List Char) := do
  let text ← normaliseFreeTextCapped lib.nfc raw.toList noticeFragmentMaxBytes
  return text.map fun c => if ['\n', '\r', '\t'].contains c then ' ' else c

def rejectedPlanNotice (reason rawPlan : String) (turn max : ℕ) : Except Panic (List Char) := do
  let reason ← terminalFragment lib reason
  let rawPlan ← terminalFragment lib rawPlan
  return s!"[SYSKNIFE SAFETY] propose_plan rejected (turn {turn}/{max}): ".toList ++ reason ++
    ". Input: ".toList ++ rawPlan

def unknownToolNotice (name : String) (turn max : ℕ) : Except Panic (List Char) := do
  let name ← terminalFragment lib name
  return "[SYSKNIFE WARNING] LLM called unknown tool '".toList ++ name ++
    s!"' (turn {turn}/{max}); sending error feedback.".toList

def handleSystemState (call : ToolCall) (host : Host σ) : Except Panic Handled × Host σ :=
  let (state, world) := p.curatedState host.world
  let host := { host with world := world }
  match state with
  | .error e => (.ok (.stop e), host)
  | .ok state => (sanitizedResult lib call state.json false, host)

def handleProposePlan (intent : String) (turn : ℕ) (call : ToolCall) (host : Host σ) :
    Except Panic Handled × Host σ :=
  match parseProposedPlan lib intent call.input with
  | .ok plan => (.ok (.plan plan), host)
  | .error (.panic stop) => (.error stop, host)
  | .error (.error e) =>
    let reason := e.message
    let rawPlan := call.input.canonicalJson
    let content := "Plan rejected: " ++ reason ++ ". Correct the plan and call propose_plan again."
    match rejectedPlanNotice lib reason rawPlan (turn + 1) p.maxTurns with
    | .error stop => (.error stop, host)
    | .ok _ =>
      (.ok (.reply (call.result content true) none), host.logRejection intent reason rawPlan)

def handleRefuse (intent : String) (call : ToolCall) (host : Host σ) :
    Except Panic Handled × Host σ :=
  match parseRefusal lib call.input with
  | .ok refusal => (.ok (.stop (.refused refusal.reason refusal.suggestion)), host)
  | .error (.panic stop) => (.error stop, host)
  | .error (.error reason) =>
    let content := "Refusal rejected: " ++ reason ++ ". Either call `refuse` again with a " ++
      "concrete reason, or propose a plan."
    (.ok (.reply (call.result content true) none),
      host.logRejection intent reason call.input.canonicalJson)

/-- `remember` and `forget`; the change is queued and not written. -/
def handlePref (kind : PrefChangeKind) (call : ToolCall) (host : Host σ) :
    Except Panic Handled × Host σ :=
  let verb := match kind with
    | .remember => "save"
    | .forget => "remove"
  match queuedChange lib.letter lib.number p.prefsPath kind call.input with
  | .ok change =>
    let content := "Queued, not yet done: the operator will be asked to " ++ verb ++
      " this preference after the plan is shown: " ++ change.fact
    (.ok (.reply (call.result content false) (some change)), host)
  | .error (content, isError) => (.ok (.reply (call.result content isError) none), host)

def handleCurrentUser (call : ToolCall) (host : Host σ) : Except Panic Handled × Host σ :=
  let (user, world) := p.currentUser host.world
  let host := { host with world := world }
  match user with
  | .ok user => (sanitizedResult lib call ("Current user: " ++ user) false, host)
  | .error e =>
    (sanitizedResult lib call ("Error: cannot determine current user: " ++ e.message) true, host)

def handleQuery (intent : String) (turn : ℕ) (call : ToolCall) (host : Host σ) :
    Except Panic Handled × Host σ :=
  match queryToolToAction call.name call.input with
  | .error msg => (.ok (.reply (call.result msg true) none), host)
  | .ok none =>
    let reason := "unknown tool: " ++ call.name
    match unknownToolNotice lib call.name (turn + 1) p.maxTurns with
    | .error stop => (.error stop, host)
    | .ok _ =>
      (.ok (.reply (call.result reason true) none),
        host.logRejection intent reason call.input.canonicalJson)
  | .ok (some (action, params)) =>
    let (output, world) := p.queryAction action params host.world
    let host := { host with world := world }
    match output with
    | .ok output => (sanitizedResult lib call output false, host)
    | .error e => (sanitizedResult lib call ("Query failed: " ++ e.message) true, host)

def handleCall (intent : String) (turn : ℕ) (call : ToolCall) (host : Host σ) :
    Except Panic Handled × Host σ :=
  match toolOf call.name with
  | .systemState => handleSystemState lib p call host
  | .proposePlan => handleProposePlan lib p intent turn call host
  | .refuse => handleRefuse lib intent call host
  | .pref kind => handlePref lib p kind call host
  | .currentUser => handleCurrentUser lib p call host
  | .other => handleQuery lib p intent turn call host

/-! ### The loop -/

/-- How the calls of a completion end. -/
inductive Ended
  | replied (results : List ToolResultBlock) (prefChanges : List PendingPrefChange)
  | done (outcome : Except (Stop PlanningError) Plan)

/-- A call that was carried out, and what it found. -/
structure Carried (σ : Type) where
  host : Host σ
  call : ToolCall

/-- The calls of a completion, one after the other. -/
def handleCalls (intent : String) (turn : ℕ) : List ToolCall → List ToolResultBlock →
    List PendingPrefChange → Host σ → Ended × List (Carried σ) × Host σ
  | [], results, changes, host => (.replied results changes, [], host)
  | call :: calls, results, changes, host =>
    match handleCall lib p intent turn call host with
    | (.error stop, after) => (.done (.error (.panic stop)), [⟨host, call⟩], after)
    | (.ok (.plan plan), after) =>
      (.done (.ok (plan.withPrefChanges changes)), [⟨host, call⟩], after)
    | (.ok (.stop e), after) => (.done (.error (.error e)), [⟨host, call⟩], after)
    | (.ok (.reply result queued), after) =>
      let (ended, carried, final) := handleCalls intent turn calls (results ++ [result])
        (changes ++ queued.toList) after
      (ended, ⟨host, call⟩ :: carried, final)

/-- What a turn leaves in the log. -/
structure Turn (σ : Type) where
  attempts : List Attempt
  carried : List (Carried σ)

/-- How a turn ends: there is another one, or planning is over. -/
inductive TurnEnd
  | next (messages : List Message) (prefChanges : List PendingPrefChange)
  | done (outcome : Except (Stop PlanningError) Plan)

def redactResult (result : ToolResultBlock) : Except Panic ToolResultBlock := do
  let content ← redactToolSecrets result.content.toList
  return { result with content := String.ofList content }

def proseCorrection : String :=
  "You must call the `propose_plan` tool. Do not output JSON or text directly — " ++
    "your response must be a tool call to `propose_plan`."

def runTurn (intent system : String) (turn : ℕ) (messages : List Message)
    (changes : List PendingPrefChange) (host : Host σ) : TurnEnd × Turn σ × Host σ :=
  match completeWithRetry p system providerRetryLimit messages host with
  | (.error e, attempts, host) => (.done (.error (.error (.provider e))), ⟨attempts, []⟩, host)
  | (.ok completion, attempts, host) =>
    let messages := messages ++ [⟨.assistant, completion.content⟩]
    match completion.stopReason with
    | .maxTokens => (.done (.error (.error .noPlanProposed)), ⟨attempts, []⟩, host)
    | .endTurn =>
      if completion.hasText ∧ turn + 1 < p.maxTurns then
        (.next (messages ++ [.userText proseCorrection]) changes, ⟨attempts, []⟩, host)
      else (.done (.error (.error .noPlanProposed)), ⟨attempts, []⟩, host)
    | .toolUse =>
      if completion.toolCalls.isEmpty then
        (.done (.error (.error .noPlanProposed)), ⟨attempts, []⟩, host)
      else
        match handleCalls lib p intent turn completion.toolCalls [] changes host with
        | (.done outcome, carried, host) => (.done outcome, ⟨attempts, carried⟩, host)
        | (.replied results changes, carried, host) =>
          match results.mapM redactResult with
          | .error stop => (.done (.error (.panic stop)), ⟨attempts, carried⟩, host)
          | .ok results =>
            (.next (messages ++ [.toolResults results]) changes, ⟨attempts, carried⟩, host)

/-- What a run leaves behind. -/
structure Run (σ : Type) where
  outcome : Except (Stop PlanningError) Plan
  turns : List (Turn σ)
  host : Host σ

/-- `for turn in 0..max_turns`, with so many turns left. -/
def runTurns (intent system : String) :
    ℕ → ℕ → List Message → List PendingPrefChange → Host σ → Run σ
  | 0, _, _, _, host => ⟨.error (.error .plannerStuck), [], host⟩
  | left + 1, turn, messages, changes, host =>
    match runTurn lib p intent system turn messages changes host with
    | (.done outcome, log, host) => ⟨outcome, [log], host⟩
    | (.next messages changes, log, host) =>
      let rest := runTurns intent system left (turn + 1) messages changes host
      { rest with turns := log :: rest.turns }

/-- `admit_request` -/
def admitRequest (text : String) (host : Host σ) : Except PlanningError Unit × Host σ :=
  if intentMaxBytes < size text.toList then
    (.error (.intentTooLong (size text.toList) intentMaxBytes), host)
  else if containsSensitive lib.letter lib.number text.toList then
    (.error .intentContainsSensitiveData, host)
  else
    match consume p host with
    | (.error secs, host) => (.error (.rateLimitExceeded secs), host)
    | (.ok (), host) => (.ok (), host)

/-- The preferences for the prompt. A panic while they are read is an error of the read. -/
def readPrefsAsync (prefs : Option (List Char)) : Option (List Char) :=
  match p.prefsPath with
  | none => none
  | some _ =>
    match readPrefs lib.nfc prefs with
    | .ok content => content
    | .error _ => none

def planIntentWithContext (intent : String) (feedback : Option String) (host : Host σ) : Run σ :=
  let intent := trim intent
  if intent = "" then ⟨.error (.error .emptyIntent), [], host⟩
  else
    let admissionText := match feedback with
      | some feedback => intent ++ "\n\n" ++ feedback
      | none => intent
    match admitRequest lib p admissionText host with
    | (.error e, host) => ⟨.error (.error e), [], host⟩
    | (.ok (), host) =>
      let system := p.buildSystemPrompt (readPrefsAsync lib p host.prefs)
      runTurns lib p intent system p.maxTurns 0 [.userText admissionText] [] host

end Loop

/-! ### One call -/

section Calls

variable {σ : Type} (lib : Library) (p : Planner σ) (intent : String)

/-- The change a call puts into the queue. -/
def accepted (call : ToolCall) : Option PendingPrefChange :=
  match toolOf call.name with
  | .pref kind => (queuedChange lib.letter lib.number p.prefsPath kind call.input).toOption
  | _ => none

/-- A tool's output is whole once its secrets are redacted. -/
def SafeOutput (raw : String) : Prop :=
  ∀ redacted, redactToolSecrets raw.toList = .ok redacted → WholeEscapes redacted

/-- What a call has normalised is whole. -/
def Whole (c : Carried σ) : Prop :=
  match toolOf c.call.name with
  | .systemState => ∀ state, (p.curatedState c.host.world).1 = .ok state → SafeOutput state.json
  | .proposePlan => PlanWhole lib c.call.input ∧
      ∀ e, parseProposedPlan lib intent c.call.input = .error (.error e) →
        WholeEscapes e.message.toList ∧ WholeEscapes c.call.input.canonicalJson.toList
  | .refuse => RefusalWhole c.call.input
  | .pref _ => True
  | .currentUser =>
    match (p.currentUser c.host.world).1 with
    | .ok user => SafeOutput ("Current user: " ++ user)
    | .error e => SafeOutput ("Error: cannot determine current user: " ++ e.message)
  | .other =>
    match queryToolToAction c.call.name c.call.input with
    | .error _ => True
    | .ok none => WholeEscapes c.call.name.toList
    | .ok (some (action, params)) =>
      match (p.queryAction action params c.host.world).1 with
      | .ok output => SafeOutput output
      | .error e => SafeOutput ("Query failed: " ++ e.message)

end Calls

section Calls

variable {σ : Type} {lib : Library} {p : Planner σ} {intent : String} {turn : ℕ} {call : ToolCall}
  {host : Host σ}

theorem exists_sanitizedResult_iff {raw : String} {isError : Bool} :
    (∃ handled, sanitizedResult lib call raw isError = .ok handled) ↔ SafeOutput raw := by
  obtain ⟨redacted, hredacted, hiff⟩ :=
    exists_sanitized_iff lib.nfc call.name.toList raw.toList maxOutputBytes
  have hsafe : SafeOutput raw ↔ WholeEscapes redacted := by
    constructor
    · exact fun h => h redacted hredacted
    · intro h other hother
      obtain rfl := Except.ok.inj (hredacted.symm.trans hother)
      exact h
  rw [hsafe, ← hiff]
  simp only [sanitizedResult, bind_eq_ok_iff]
  constructor
  · rintro ⟨handled, text, htext, -⟩
    exact ⟨text, htext⟩
  · rintro ⟨text, htext⟩
    exact ⟨_, text, htext, rfl⟩

theorem exists_terminalFragment_iff {raw : String} :
    (∃ text, terminalFragment lib raw = .ok text) ↔ WholeEscapes raw.toList := by
  rw [← exists_normalised_iff lib.nfc raw.toList noticeFragmentMaxBytes]
  simp only [terminalFragment, bind_eq_ok_iff]
  constructor
  · rintro ⟨_, text, htext, -⟩
    exact ⟨text, htext⟩
  · rintro ⟨text, htext⟩
    exact ⟨_, text, htext, rfl⟩

theorem sanitizedResult_eq_ok {raw : String} {isError : Bool} {handled : Handled}
    (h : sanitizedResult lib call raw isError = .ok handled) :
    ∃ content, handled = .reply (call.result content isError) none := by
  obtain ⟨text, -, h⟩ := exists_of_bind_eq_ok h
  exact ⟨String.ofList text, (Except.ok.inj h).symm⟩

variable (lib p intent) in
/-- What a call of a tool does. -/
structure CallSpec (call : ToolCall) (host : Host σ) (r : Except Panic Handled × Host σ) :
    Prop where
  prefs : r.2.prefs = host.prefs
  stands : (∃ handled, r.1 = .ok handled) ↔ Whole lib p intent ⟨host, call⟩
  reply (result : ToolResultBlock) (queued : Option PendingPrefChange)
    (h : r.1 = .ok (.reply result queued)) :
    result.key = call.key ∧ queued = accepted lib p call
  plan (plan : Plan) (h : r.1 = .ok (.plan plan)) :
    toolOf call.name = .proposePlan ∧ parseProposedPlan lib intent call.input = .ok plan

/-- A call that ends in a sanitised output. -/
theorem callSpec_sanitized {raw : String} {isError : Bool} {after : Host σ}
    (hprefs : after.prefs = host.prefs) (hwhole : Whole lib p intent ⟨host, call⟩ ↔ SafeOutput raw)
    (haccepted : accepted lib p call = none) :
    CallSpec lib p intent call host (sanitizedResult lib call raw isError, after) where
  prefs := hprefs
  stands := by rw [exists_sanitizedResult_iff, hwhole]
  reply result queued h := by
    obtain ⟨content, heq⟩ := sanitizedResult_eq_ok h
    obtain ⟨rfl, rfl⟩ := Handled.reply.inj heq
    exact ⟨rfl, haccepted.symm⟩
  plan plan h := by
    obtain ⟨content, heq⟩ := sanitizedResult_eq_ok h
    cases heq

/-- A call that is answered with a text of the planner's own. -/
theorem callSpec_reply {content : String} {isError : Bool} {queued : Option PendingPrefChange}
    {after : Host σ} (hprefs : after.prefs = host.prefs) (hwhole : Whole lib p intent ⟨host, call⟩)
    (haccepted : accepted lib p call = queued) :
    CallSpec lib p intent call host (.ok (.reply (call.result content isError) queued), after) where
  prefs := hprefs
  stands := iff_of_true ⟨_, rfl⟩ hwhole
  reply result queued' h := by
    obtain ⟨rfl, rfl⟩ := Handled.reply.inj (Except.ok.inj h)
    exact ⟨rfl, haccepted.symm⟩
  plan plan h := by cases h

/-- A call that ends planning without a plan. -/
theorem callSpec_stop {e : PlanningError} {after : Host σ} (hprefs : after.prefs = host.prefs)
    (hwhole : Whole lib p intent ⟨host, call⟩) :
    CallSpec lib p intent call host (.ok (.stop e), after) where
  prefs := hprefs
  stands := iff_of_true ⟨_, rfl⟩ hwhole
  reply result queued h := by cases h
  plan plan h := by cases h

/-- A call at which the program stops. -/
theorem callSpec_error {stop : Panic} {after : Host σ} (hprefs : after.prefs = host.prefs)
    (hwhole : ¬ Whole lib p intent ⟨host, call⟩) :
    CallSpec lib p intent call host (.error stop, after) where
  prefs := hprefs
  stands := iff_of_false (by rintro ⟨handled, ⟨⟩⟩) hwhole
  reply result queued h := by cases h
  plan plan h := by cases h

/-- Only `remember` and `forget` queue a change. -/
theorem accepted_eq_none (h : ∀ kind, toolOf call.name ≠ .pref kind) :
    accepted lib p call = none := by
  rw [accepted]
  split
  · next kind hkind => exact absurd hkind (h kind)
  · rfl

theorem handleSystemState_spec (htool : toolOf call.name = .systemState) :
    CallSpec lib p intent call host (handleSystemState lib p call host) := by
  have haccepted : accepted lib p call = none := accepted_eq_none (by simp [htool])
  rw [handleSystemState]
  rcases hstate : p.curatedState host.world with ⟨state, world⟩
  cases state with
  | error e => exact callSpec_stop rfl (by simp [Whole, htool, hstate])
  | ok state => exact callSpec_sanitized rfl (by simp [Whole, htool, hstate]) haccepted

theorem exists_rejectedPlanNotice_iff {reason rawPlan : String} {shown max : ℕ} :
    (∃ text, rejectedPlanNotice lib reason rawPlan shown max = .ok text) ↔
      WholeEscapes reason.toList ∧ WholeEscapes rawPlan.toList := by
  rw [← exists_terminalFragment_iff, ← exists_terminalFragment_iff]
  simp only [rejectedPlanNotice, bind_eq_ok_iff]
  constructor
  · rintro ⟨_, r, hr, w, hw, -⟩
    exact ⟨⟨r, hr⟩, w, hw⟩
  · rintro ⟨⟨r, hr⟩, w, hw⟩
    exact ⟨_, r, hr, w, hw, rfl⟩

theorem handleProposePlan_spec (htool : toolOf call.name = .proposePlan) :
    CallSpec lib p intent call host (handleProposePlan lib p intent turn call host) := by
  have haccepted : accepted lib p call = none := accepted_eq_none (by simp [htool])
  have hparser := @stands_parseProposedPlan lib intent call.input
  have hwhole : Whole lib p intent ⟨host, call⟩ ↔ PlanWhole lib call.input ∧
      ∀ e, parseProposedPlan lib intent call.input = .error (.error e) →
        WholeEscapes e.message.toList ∧ WholeEscapes call.input.canonicalJson.toList := by
    rw [Whole, htool]
  rw [handleProposePlan]
  cases hparse : parseProposedPlan lib intent call.input with
  | ok plan =>
    have hstands : Stands (parseProposedPlan lib intent call.input) := hparse ▸ stands_ok plan
    refine ⟨rfl, iff_of_true ⟨_, rfl⟩ ?_, (fun _ _ h => by cases h), fun plan' h => ?_⟩
    · refine hwhole.mpr ⟨hparser.mp hstands, fun e he => ?_⟩
      cases hparse.symm.trans he
    · obtain rfl := Handled.plan.inj (Except.ok.inj h)
      exact ⟨htool, hparse⟩
  | error e =>
    cases e with
    | panic stop =>
      refine callSpec_error rfl fun h => ?_
      exact hparser.mpr (hwhole.mp h).1 stop hparse
    | error e =>
      have hstands : Stands (parseProposedPlan lib intent call.input) := by
        intro stop hstop
        cases hparse.symm.trans hstop
      have hnotice : (∃ text, rejectedPlanNotice lib e.message call.input.canonicalJson (turn + 1)
          p.maxTurns = .ok text) ↔ Whole lib p intent ⟨host, call⟩ := by
        rw [exists_rejectedPlanNotice_iff, hwhole, and_iff_right (hparser.mp hstands)]
        constructor
        · intro h e' he'
          obtain ⟨⟩ := hparse.symm.trans he'
          exact h
        · exact fun h => h e hparse
      dsimp only
      cases htext : rejectedPlanNotice lib e.message call.input.canonicalJson (turn + 1)
          p.maxTurns with
      | error stop =>
        refine callSpec_error rfl fun h => ?_
        obtain ⟨text, hok⟩ := hnotice.mpr h
        cases htext.symm.trans hok
      | ok text => exact callSpec_reply rfl (hnotice.mp ⟨text, htext⟩) haccepted

theorem handleRefuse_spec (htool : toolOf call.name = .refuse) :
    CallSpec lib p intent call host (handleRefuse lib intent call host) := by
  have haccepted : accepted lib p call = none := accepted_eq_none (by simp [htool])
  have hwhole : Whole lib p intent ⟨host, call⟩ ↔ Stands (parseRefusal lib call.input) := by
    rw [Whole, htool, stands_parseRefusal]
  rw [handleRefuse]
  cases hparse : parseRefusal lib call.input with
  | ok refusal => exact callSpec_stop rfl (hwhole.mpr (hparse ▸ stands_ok refusal))
  | error e =>
    cases e with
    | panic stop => exact callSpec_error rfl fun h => hwhole.mp h stop hparse
    | error reason =>
      refine callSpec_reply rfl (hwhole.mpr fun stop hstop => ?_) haccepted
      cases hparse.symm.trans hstop

theorem handlePref_spec {kind : PrefChangeKind} (htool : toolOf call.name = .pref kind) :
    CallSpec lib p intent call host (handlePref lib p kind call host) := by
  have hwhole : Whole lib p intent ⟨host, call⟩ := by
    rw [Whole, htool]
    trivial
  have haccepted : accepted lib p call =
      (queuedChange lib.letter lib.number p.prefsPath kind call.input).toOption := by
    rw [accepted, htool]
  unfold handlePref
  cases hqueued : queuedChange lib.letter lib.number p.prefsPath kind call.input with
  | ok change => exact callSpec_reply rfl hwhole (haccepted.trans (by rw [hqueued]; rfl))
  | error e => exact callSpec_reply rfl hwhole (haccepted.trans (by rw [hqueued]; rfl))

theorem handleCurrentUser_spec (htool : toolOf call.name = .currentUser) :
    CallSpec lib p intent call host (handleCurrentUser lib p call host) := by
  have haccepted : accepted lib p call = none := accepted_eq_none (by simp [htool])
  rw [handleCurrentUser]
  rcases huser : p.currentUser host.world with ⟨user, world⟩
  cases user with
  | ok user => exact callSpec_sanitized rfl (by rw [Whole, htool, huser]) haccepted
  | error e => exact callSpec_sanitized rfl (by rw [Whole, htool, huser]) haccepted

theorem handleQuery_spec (htool : toolOf call.name = .other) :
    CallSpec lib p intent call host (handleQuery lib p intent turn call host) := by
  have haccepted : accepted lib p call = none := accepted_eq_none (by simp [htool])
  rw [handleQuery]
  cases hquery : queryToolToAction call.name call.input with
  | error msg => exact callSpec_reply rfl (by simp [Whole, htool, hquery]) haccepted
  | ok action =>
    cases action with
    | none =>
      have hnotice : (∃ text, unknownToolNotice lib call.name (turn + 1) p.maxTurns = .ok text) ↔
          Whole lib p intent ⟨host, call⟩ := by
        simp only [Whole, htool, hquery]
        rw [← @exists_terminalFragment_iff lib]
        simp only [unknownToolNotice, bind_eq_ok_iff]
        constructor
        · rintro ⟨_, name, hname, -⟩
          exact ⟨name, hname⟩
        · rintro ⟨name, hname⟩
          exact ⟨_, name, hname, rfl⟩
      cases htext : unknownToolNotice lib call.name (turn + 1) p.maxTurns with
      | error stop =>
        refine callSpec_error rfl fun h => ?_
        obtain ⟨text, hok⟩ := hnotice.mpr h
        cases htext.symm.trans hok
      | ok text => exact callSpec_reply rfl (hnotice.mp ⟨text, htext⟩) haccepted
    | some query =>
      obtain ⟨action, params⟩ := query
      rcases houtput : p.queryAction action params host.world with ⟨output, world⟩
      simp only [houtput]
      cases output with
      | ok output =>
        have hwhole : Whole lib p intent ⟨host, call⟩ ↔ SafeOutput output := by
          simp only [Whole, htool, hquery, houtput]
        exact callSpec_sanitized rfl hwhole haccepted
      | error e =>
        have hwhole : Whole lib p intent ⟨host, call⟩ ↔
            SafeOutput ("Query failed: " ++ e.message) := by
          simp only [Whole, htool, hquery, houtput]
        exact callSpec_sanitized rfl hwhole haccepted

theorem handleCall_spec :
    CallSpec lib p intent call host (handleCall lib p intent turn call host) := by
  rw [handleCall]
  cases htool : toolOf call.name with
  | systemState => exact handleSystemState_spec htool
  | proposePlan => exact handleProposePlan_spec htool
  | refuse => exact handleRefuse_spec htool
  | pref kind => exact handlePref_spec htool
  | currentUser => exact handleCurrentUser_spec htool
  | other => exact handleQuery_spec htool

end Calls

/-! ### The calls of a completion -/

section Completion

variable {σ : Type} (lib : Library) (p : Planner σ) (intent : String)

/-- What calls put into the queue, in their order. -/
def queue (carried : List (Carried σ)) : List PendingPrefChange :=
  carried.filterMap fun c => accepted lib p c.call

/-- The plan is that of the last call, which proposed it, with the queue of the calls before. -/
def Proposed (changes : List PendingPrefChange) (carried : List (Carried σ)) (plan : Plan) : Prop :=
  ∃ before last parsed, carried = before ++ [last] ∧ toolOf last.call.name = .proposePlan ∧
    parseProposedPlan lib intent last.call.input = .ok parsed ∧
    plan = parsed.withPrefChanges (changes ++ queue lib p before)

/-- What the calls of a completion do. -/
structure CallsSpec (calls : List ToolCall) (results : List ToolResultBlock)
    (changes : List PendingPrefChange) (host : Host σ) (r : Ended × List (Carried σ) × Host σ) :
    Prop where
  prefs : r.2.2.prefs = host.prefs
  made : r.2.1.map Carried.call <+: calls
  started (h : calls ≠ []) : r.2.1 ≠ []
  stands : (∀ stop, r.1 ≠ .done (.error (.panic stop))) ↔ ∀ c ∈ r.2.1, Whole lib p intent c
  replied (results' : List ToolResultBlock) (changes' : List PendingPrefChange)
    (h : r.1 = .replied results' changes') :
    results'.map ToolResultBlock.key = results.map ToolResultBlock.key ++ calls.map ToolCall.key ∧
      changes' = changes ++ queue lib p r.2.1
  plan (plan : Plan) (h : r.1 = .done (.ok plan)) : Proposed lib p intent changes r.2.1 plan

end Completion

section Completion

variable {σ : Type} {lib : Library} {p : Planner σ} {intent : String} {turn : ℕ}

theorem queue_append (a b : List (Carried σ)) :
    queue lib p (a ++ b) = queue lib p a ++ queue lib p b :=
  List.filterMap_append ..

theorem queue_cons (c : Carried σ) (carried : List (Carried σ)) :
    queue lib p (c :: carried) = (accepted lib p c.call).toList ++ queue lib p carried := by
  rw [queue, List.filterMap_cons]
  cases accepted lib p c.call <;> rfl

/-- Calls that were carried out before the others. -/
theorem Proposed.append {changes : List PendingPrefChange} {a b : List (Carried σ)} {plan : Plan}
    (h : Proposed lib p intent (changes ++ queue lib p a) b plan) :
    Proposed lib p intent changes (a ++ b) plan := by
  obtain ⟨before, last, parsed, rfl, htool, hparsed, rfl⟩ := h
  refine ⟨a ++ before, last, parsed, (List.append_assoc ..).symm, htool, hparsed, ?_⟩
  rw [queue_append, List.append_assoc]

theorem queue_singleton (c : Carried σ) : queue lib p [c] = (accepted lib p c.call).toList := by
  rw [queue_cons]
  exact List.append_nil _

/-- A call after which no other one is carried out. -/
theorem callsSpec_done {call : ToolCall} {calls : List ToolCall} {results : List ToolResultBlock}
    {changes : List PendingPrefChange} {host after : Host σ}
    {outcome : Except (Stop PlanningError) Plan} (hprefs : after.prefs = host.prefs)
    (hstands : (∀ stop, outcome ≠ .error (.panic stop)) ↔ Whole lib p intent ⟨host, call⟩)
    (hplan : ∀ plan, outcome = .ok plan → Proposed lib p intent changes [⟨host, call⟩] plan) :
    CallsSpec lib p intent (call :: calls) results changes host
      (.done outcome, [⟨host, call⟩], after) where
  prefs := hprefs
  made := ⟨calls, rfl⟩
  started _ := List.cons_ne_nil _ _
  stands := by
    rw [List.forall_mem_singleton, ← hstands]
    simp
  replied results' changes' h := by cases h
  plan plan h := hplan plan (Ended.done.inj h)

theorem handleCalls_spec (calls : List ToolCall) (results : List ToolResultBlock)
    (changes : List PendingPrefChange) (host : Host σ) :
    CallsSpec lib p intent calls results changes host
      (handleCalls lib p intent turn calls results changes host) := by
  induction calls generalizing results changes host with
  | nil =>
    refine ⟨rfl, List.nil_prefix, fun h => absurd rfl h, by simp [handleCalls],
      fun results' changes' h => ?_, ?_⟩
    · obtain ⟨rfl, rfl⟩ := Ended.replied.inj h
      simp [handleCalls, queue]
    · rintro plan ⟨⟩
  | cons call calls ih =>
    have hspec := @handleCall_spec σ lib p intent turn call host
    rw [handleCalls]
    rcases hcall : handleCall lib p intent turn call host with ⟨answer, after⟩
    rw [hcall] at hspec
    rcases answer with stop | (⟨result, queued⟩ | plan | e)
    · -- the program stops at this call
      refine callsSpec_done hspec.prefs ?_ (fun plan h => by cases h)
      rw [← hspec.stands]
      exact iff_of_false (fun h => h stop rfl) (by rintro ⟨handled, ⟨⟩⟩)
    · obtain ⟨hkey, rfl⟩ := hspec.reply result queued rfl
      have hrest := ih (results ++ [result]) (changes ++ (accepted lib p call).toList) after
      refine ⟨hrest.prefs.trans hspec.prefs, ?_, fun _ => List.cons_ne_nil _ _, ?_,
        fun results' changes' h => ?_, fun plan h => ?_⟩
      · exact List.prefix_cons_inj call |>.mpr hrest.made
      · have hwhole : Whole lib p intent ⟨host, call⟩ := hspec.stands.mp ⟨_, rfl⟩
        rw [List.forall_mem_cons, and_iff_right hwhole]
        exact hrest.stands
      · obtain ⟨hkeys, rfl⟩ := hrest.replied results' changes' h
        refine ⟨?_, by rw [queue_cons, List.append_assoc]⟩
        rw [hkeys, List.map_append, List.map_singleton, List.map_cons, hkey, List.append_assoc]
        rfl
      · have hproposed := hrest.plan plan h
        rw [← @queue_singleton σ lib p ⟨host, call⟩] at hproposed
        exact hproposed.append
    · obtain ⟨htool, hparse⟩ := hspec.plan plan rfl
      refine callsSpec_done hspec.prefs ?_ fun plan' h => ?_
      · rw [← hspec.stands]
        exact iff_of_true (fun stop h => by cases h) ⟨_, rfl⟩
      · obtain rfl := Except.ok.inj h
        exact ⟨[], _, plan, rfl, htool, hparse, by simp [queue]⟩
    · refine callsSpec_done hspec.prefs ?_ (fun plan h => by cases h)
      rw [← hspec.stands]
      exact iff_of_true (fun stop h => by cases h) ⟨_, rfl⟩

end Completion

/-! ### A turn and a run -/

section Runs

variable {σ : Type} (lib : Library) (p : Planner σ) (intent : String)

/-- What asking the provider once, with its retries, does. -/
structure RetrySpec (system : String) (left : ℕ) (messages : List Message) (host : Host σ)
    (r : Except ProviderError Completion × List Attempt × Host σ) : Prop where
  prefs : r.2.2.prefs = host.prefs
  bounded : r.2.1.length ≤ left + 1
  last : ∃ a, r.2.1.getLast? = some a ∧ a.answer = r.1
  answered (c : Completion) (h : r.1 = .ok c) :
    ∃ asked world, (p.complete system asked p.tools world).1 = .ok c
  asked (a : Attempt) (ha : a ∈ r.2.1) :
    ∃ extra : List String, a.messages = messages ++ extra.map Message.userText

/-- The calls of a turn are those of its completion, from the first one on, and the provider is
asked at most three times. -/
structure Turn.Sound (t : Turn σ) : Prop where
  bounded : t.attempts.length ≤ providerRetryLimit + 1
  made : t.carried = [] ∨ ∃ a completion, t.attempts.getLast? = some a ∧
    a.answer = .ok completion ∧ t.carried.map Carried.call <+: completion.toolCalls

/-- What a turn does. -/
structure TurnSpec (messages : List Message) (changes : List PendingPrefChange) (host : Host σ)
    (r : TurnEnd × Turn σ × Host σ) : Prop where
  prefs : r.2.2.prefs = host.prefs
  asked : ∃ a ∈ r.2.1.attempts, ∃ extra : List String,
    a.messages = messages ++ extra.map Message.userText
  sound : r.2.1.Sound
  stands : (∀ stop, r.1 ≠ .done (.error (.panic stop))) ↔
    ∀ c ∈ r.2.1.carried, Whole lib p intent c
  next (messages : List Message) (changes' : List PendingPrefChange)
    (h : r.1 = .next messages changes') : changes' = changes ++ queue lib p r.2.1.carried
  plan (plan : Plan) (h : r.1 = .done (.ok plan)) :
    Proposed lib p intent changes r.2.1.carried plan

/-- What a run of turns does. -/
structure RunSpec (left : ℕ) (changes : List PendingPrefChange) (host : Host σ) (r : Run σ) :
    Prop where
  prefs : r.host.prefs = host.prefs
  turns : r.turns.length ≤ left
  sound (t : Turn σ) (ht : t ∈ r.turns) : t.Sound
  stands : (∀ stop, r.outcome ≠ .error (.panic stop)) ↔
    ∀ t ∈ r.turns, ∀ c ∈ t.carried, Whole lib p intent c
  plan (plan : Plan) (h : r.outcome = .ok plan) :
    Proposed lib p intent changes (r.turns.flatMap Turn.carried) plan

end Runs

section Runs

variable {σ : Type} {lib : Library} {p : Planner σ} {intent system : String} {turn : ℕ}

theorem consume_prefs (host : Host σ) : (consume p host).2.prefs = host.prefs := by
  rw [consume]
  cases p.rateLimiter <;> rfl

/-- One attempt and no other. -/
theorem retrySpec_one {left : ℕ} {messages : List Message} {host after : Host σ}
    {answer : Except ProviderError Completion} (hprefs : after.prefs = host.prefs)
    (hanswer : (p.complete system messages p.tools host.world).1 = answer) :
    RetrySpec p system left messages host (answer, [⟨messages, answer⟩], after) where
  prefs := hprefs
  bounded := Nat.le_add_left 1 left
  last := ⟨_, rfl, rfl⟩
  answered c h := ⟨messages, host.world, hanswer.trans h⟩
  asked a ha := by
    obtain rfl := List.mem_singleton.mp ha
    exact ⟨[], (List.append_nil _).symm⟩

theorem completeWithRetry_spec (left : ℕ) (messages : List Message) (host : Host σ) :
    RetrySpec p system left messages host (completeWithRetry p system left messages host) := by
  induction left generalizing messages host with
  | zero =>
    rw [completeWithRetry]
    rcases hanswer : p.complete system messages p.tools host.world with ⟨answer, world⟩
    cases answer with
    | ok completion => exact retrySpec_one rfl (by rw [hanswer])
    | error e => exact retrySpec_one rfl (by rw [hanswer])
  | succ left ih =>
    rw [completeWithRetry]
    rcases hanswer : p.complete system messages p.tools host.world with ⟨answer, world⟩
    cases answer with
    | ok completion => exact retrySpec_one rfl (by rw [hanswer])
    | error e =>
      dsimp only
      split_ifs with hretry
      · exact retrySpec_one rfl (by rw [hanswer])
      · have hprefs := @consume_prefs σ p { host with world := world }
        rcases htoken : consume p { host with world := world } with ⟨token, after⟩
        rw [htoken] at hprefs
        cases token with
        | error secs => exact retrySpec_one hprefs (by rw [hanswer])
        | ok token =>
          have hrest := ih (messages ++
            ((toolCallCorrection e p.tools).map Message.userText).toList) after
          obtain ⟨last, hlast, hsame⟩ := hrest.last
          refine ⟨hrest.prefs.trans hprefs, Nat.succ_le_succ hrest.bounded, ⟨last, ?_, hsame⟩,
            hrest.answered, ?_⟩
          · show (_ :: _).getLast? = some last
            rw [List.getLast?_cons, hlast, Option.getD_some]
          · refine List.forall_mem_cons.mpr ⟨⟨[], (List.append_nil _).symm⟩, fun a ha => ?_⟩
            obtain ⟨extra, hextra⟩ := hrest.asked a ha
            refine ⟨(toolCallCorrection e p.tools).toList ++ extra, ?_⟩
            rw [hextra, List.map_append, List.append_assoc, Option.toList_map]

theorem exists_redacted (results : List ToolResultBlock) : ∃ results',
    results.mapM redactResult = .ok results' ∧
      results'.map ToolResultBlock.key = results.map ToolResultBlock.key := by
  induction results with
  | nil => exact ⟨[], rfl, rfl⟩
  | cons result results ih =>
    obtain ⟨results', hresults, hkeys⟩ := ih
    obtain ⟨_, content, -, -, hcontent⟩ := redactToolSecrets_spec result.content.toList
    refine ⟨{ result with content := String.ofList content } :: results', ?_, ?_⟩
    · rw [List.mapM_cons, redactResult, hcontent, hresults]
      rfl
    · rw [List.map_cons, List.map_cons, hkeys]
      rfl

/-- The provider is asked. -/
theorem RetrySpec.exists_asked {left : ℕ} {messages : List Message} {host : Host σ}
    {r : Except ProviderError Completion × List Attempt × Host σ}
    (h : RetrySpec p system left messages host r) : ∃ a ∈ r.2.1, ∃ extra : List String,
      a.messages = messages ++ extra.map Message.userText := by
  obtain ⟨last, hlast, -⟩ := h.last
  have hmem := List.mem_of_getLast? hlast
  exact ⟨last, hmem, h.asked last hmem⟩

/-- A turn in which no call is carried out. -/
theorem turnSpec_idle {messages : List Message} {changes : List PendingPrefChange}
    {host after : Host σ} {answer : Except ProviderError Completion} {attempts : List Attempt}
    {turnEnd : TurnEnd}
    (hasked : RetrySpec p system providerRetryLimit messages host (answer, attempts, after))
    (hend : (∃ e, turnEnd = .done (.error (.error e))) ∨
      ∃ messages, turnEnd = .next messages changes) :
    TurnSpec lib p intent messages changes host (turnEnd, ⟨attempts, []⟩, after) where
  prefs := hasked.prefs
  asked := hasked.exists_asked
  sound := ⟨hasked.bounded, .inl rfl⟩
  stands := by
    refine iff_of_true (fun stop h => ?_) fun c hc => absurd hc List.not_mem_nil
    obtain ⟨e, rfl⟩ | ⟨messages, rfl⟩ := hend <;> cases h
  next messages' changes' h := by
    obtain ⟨e, rfl⟩ | ⟨messages, rfl⟩ := hend
    · cases h
    · obtain ⟨rfl, rfl⟩ := TurnEnd.next.inj h
      exact (List.append_nil _).symm
  plan plan h := by
    obtain ⟨e, rfl⟩ | ⟨messages, rfl⟩ := hend <;> cases h

theorem runTurn_spec (messages : List Message) (changes : List PendingPrefChange) (host : Host σ) :
    TurnSpec lib p intent messages changes host
      (runTurn lib p intent system turn messages changes host) := by
  have hasked := @completeWithRetry_spec σ p system providerRetryLimit messages host
  rw [runTurn]
  generalize completeWithRetry p system providerRetryLimit messages host = asked at hasked ⊢
  obtain ⟨answer, attempts, after⟩ := asked
  cases answer with
  | error e => exact turnSpec_idle hasked (.inl ⟨_, rfl⟩)
  | ok completion =>
    dsimp only
    cases completion.stopReason with
    | maxTokens => exact turnSpec_idle hasked (.inl ⟨_, rfl⟩)
    | endTurn =>
      dsimp only
      split_ifs
      · exact turnSpec_idle hasked (.inr ⟨_, rfl⟩)
      · exact turnSpec_idle hasked (.inl ⟨_, rfl⟩)
    | toolUse =>
      dsimp only
      split_ifs
      · exact turnSpec_idle hasked (.inl ⟨_, rfl⟩)
      have hcalls := @handleCalls_spec σ lib p intent turn completion.toolCalls [] changes after
      generalize handleCalls lib p intent turn completion.toolCalls [] changes after = called
        at hcalls ⊢
      obtain ⟨ended, carried, final⟩ := called
      obtain ⟨last, hlast, hanswer⟩ := hasked.last
      have hsound : (⟨attempts, carried⟩ : Turn σ).Sound :=
        ⟨hasked.bounded, .inr ⟨last, completion, hlast, hanswer, hcalls.made⟩⟩
      cases ended with
      | done outcome =>
        have hprefs := hcalls.prefs.trans hasked.prefs
        refine ⟨hprefs, hasked.exists_asked, hsound, ?_, (fun _ _ h => by cases h),
          fun plan h => ?_⟩
        · rw [← hcalls.stands]
          simp
        · obtain rfl := TurnEnd.done.inj h
          exact hcalls.plan plan rfl
      | replied results changes' =>
        obtain ⟨results', hresults, -⟩ := exists_redacted results
        have hwhole := hcalls.stands.mp fun stop h => by cases h
        simp only [hresults]
        have hprefs := hcalls.prefs.trans hasked.prefs
        refine ⟨hprefs, hasked.exists_asked, hsound, ?_, fun messages' changes'' h => ?_,
          (fun _ h => by cases h)⟩
        · exact iff_of_true (fun stop h => by cases h) hwhole
        · obtain ⟨-, rfl⟩ := TurnEnd.next.inj h
          exact (hcalls.replied results changes' rfl).2

theorem runTurns_spec (left : ℕ) (messages : List Message) (changes : List PendingPrefChange)
    (host : Host σ) : RunSpec lib p intent left changes host
      (runTurns lib p intent system left turn messages changes host) := by
  induction left generalizing turn messages changes host with
  | zero =>
    refine ⟨rfl, Nat.le_refl 0, fun t ht => absurd ht List.not_mem_nil, ?_,
      (fun plan h => by cases h)⟩
    exact iff_of_true (fun stop h => by cases h) fun t ht => absurd ht List.not_mem_nil
  | succ left ih =>
    have hturn := @runTurn_spec σ lib p intent system turn messages changes host
    rw [runTurns]
    generalize runTurn lib p intent system turn messages changes host = ran at hturn ⊢
    obtain ⟨turnEnd, log, after⟩ := ran
    cases turnEnd with
    | done outcome =>
      refine ⟨hturn.prefs, Nat.succ_le_succ (Nat.zero_le left), ?_, ?_, fun plan h => ?_⟩
      · exact List.forall_mem_singleton.mpr hturn.sound
      · rw [List.forall_mem_singleton, ← hturn.stands]
        simp
      · have hproposed := hturn.plan plan (congrArg TurnEnd.done h)
        rwa [List.flatMap_singleton]
    | next messages' changes' =>
      have hchanges : changes' = changes ++ queue lib p log.carried :=
        hturn.next messages' changes' rfl
      have hrest := @ih (turn + 1) messages' changes' after
      have hwhole := hturn.stands.mp fun stop h => by cases h
      refine ⟨hrest.prefs.trans hturn.prefs, Nat.succ_le_succ hrest.turns, ?_, ?_,
        fun plan h => ?_⟩
      · exact List.forall_mem_cons.mpr ⟨hturn.sound, hrest.sound⟩
      · rw [List.forall_mem_cons, and_iff_right hwhole]
        exact hrest.stands
      · rw [List.flatMap_cons]
        refine Proposed.append ?_
        rw [← hchanges]
        exact hrest.plan plan h

theorem toolOf_eq_proposePlan {name : String} (h : toolOf name = .proposePlan) :
    name = "propose_plan" := by
  unfold toolOf at h
  split at h <;> first | rfl | cases h

end Runs

/-! ### What a run promises -/

section Planned

variable {σ : Type} (lib : Library) (p : Planner σ) (intent : String)

/-- A run is bounded, its plan is that of a call which proposed it, with the changes that were
queued before, and what the plan may do is permitted. Preferences are not written, and the run
ends in a plan or an error. -/
structure Planned (host : Host σ) (r : Run σ) : Prop where
  turns : r.turns.length ≤ p.maxTurns
  sound (t : Turn σ) (ht : t ∈ r.turns) : t.Sound
  plan (plan : Plan) (h : r.outcome = .ok plan) : ∃ before last parsed,
    r.turns.flatMap Turn.carried = before ++ [last] ∧ last.call.name = "propose_plan" ∧
      parseProposedPlan lib intent last.call.input = .ok parsed ∧
      plan = parsed.withPrefChanges (queue lib p before)
  permitted (plan : Plan) (h : r.outcome = .ok plan) : plan.steps ≠ [] ∧
    ∀ step ∈ plan.steps, Permitted step.actionName.name step.params
  prefs : r.host.prefs = host.prefs
  returns (stop : Panic) : r.outcome ≠ .error (.panic stop)

variable {lib p intent}

theorem RunSpec.planned {host : Host σ} {r : Run σ} (h : RunSpec lib p intent p.maxTurns [] host r)
    (hwhole : ∀ t ∈ r.turns, ∀ c ∈ t.carried, Whole lib p intent c) :
    Planned lib p intent host r where
  turns := h.turns
  sound := h.sound
  plan out hout := by
    obtain ⟨before, last, parsed, hcarried, htool, hparsed, hsame⟩ := h.plan out hout
    exact ⟨before, last, parsed, hcarried, toolOf_eq_proposePlan htool, hparsed, hsame⟩
  permitted out hout := by
    obtain ⟨before, last, parsed, -, -, hparsed, rfl⟩ := h.plan out hout
    exact ⟨parsed.steps_ne, (sound_of_parseProposedPlan hparsed).2.2⟩
  prefs := h.prefs
  returns := h.stands.mpr hwhole

/-- A run that ends before its first turn. -/
theorem runSpec_refused {left : ℕ} {host after : Host σ} {e : PlanningError}
    (hprefs : after.prefs = host.prefs) :
    RunSpec lib p intent left [] host ⟨.error (.error e), [], after⟩ where
  prefs := hprefs
  turns := Nat.zero_le left
  sound t ht := absurd ht List.not_mem_nil
  stands := iff_of_true (fun stop h => by cases h) fun t ht => absurd ht List.not_mem_nil
  plan plan h := by cases h

theorem admitRequest_prefs (text : String) (host : Host σ) :
    (admitRequest lib p text host).2.prefs = host.prefs := by
  have hprefs := @consume_prefs σ p host
  rw [admitRequest]
  split_ifs
  · rfl
  · rfl
  · generalize consume p host = consumed at hprefs ⊢
    obtain ⟨token, after⟩ := consumed
    cases token with
    | error secs => exact hprefs
    | ok token => exact hprefs

/-- A request is refused, or the turns are run on a conversation of one message. -/
theorem planIntentWithContext_cases (lib : Library) (p : Planner σ) (request : String)
    (feedback : Option String) (host : Host σ) : ∃ after : Host σ, after.prefs = host.prefs ∧
      ((∃ e, planIntentWithContext lib p request feedback host = ⟨.error (.error e), [], after⟩) ∨
        ∃ system text, planIntentWithContext lib p request feedback host =
          runTurns lib p (trim request) system p.maxTurns 0 [.userText text] [] after) := by
  unfold planIntentWithContext
  by_cases hempty : trim request = ""
  · exact ⟨host, rfl, .inl ⟨.emptyIntent, if_pos hempty⟩⟩
  rw [if_neg hempty]
  generalize (match feedback with
    | some feedback => trim request ++ "\n\n" ++ feedback
    | none => trim request) = text
  have hprefs := @admitRequest_prefs σ lib p text host
  dsimp only
  generalize admitRequest lib p text host = admitted at hprefs ⊢
  obtain ⟨token, after⟩ := admitted
  refine ⟨after, hprefs, ?_⟩
  cases token with
  | error e => exact .inl ⟨e, rfl⟩
  | ok token => exact .inr ⟨_, text, rfl⟩

theorem planIntentWithContext_spec (request : String) (feedback : Option String) (host : Host σ) :
    RunSpec lib p (trim request) p.maxTurns [] host
      (planIntentWithContext lib p request feedback host) := by
  obtain ⟨after, hprefs, ⟨e, heq⟩ | ⟨system, text, heq⟩⟩ :=
    planIntentWithContext_cases lib p request feedback host
  · rw [heq]
    exact runSpec_refused hprefs
  · have hrun := @runTurns_spec σ lib p (trim request) system 0 p.maxTurns [.userText text] [] after
    rw [heq]
    exact { hrun with prefs := hrun.prefs.trans hprefs }

end Planned

/-- **When a run keeps its promises.** It does if and only if each text that a call of it has
normalised is whole: the redacted output of a tool, what the model wrote in a plan or a refusal as
far as it is read, the reason a plan is rejected for, and the name of a tool that does not exist. -/
theorem planned_iff {σ : Type} (lib : Library) (p : Planner σ) (request : String)
    (feedback : Option String) (host : Host σ) :
    Planned lib p (trim request) host (planIntentWithContext lib p request feedback host) ↔
      ∀ t ∈ (planIntentWithContext lib p request feedback host).turns, ∀ c ∈ t.carried,
        Whole lib p (trim request) c := by
  have hspec := @planIntentWithContext_spec σ lib p request feedback host
  constructor
  · exact fun h => hspec.stands.mp h.returns
  · exact hspec.planned

/-- A library for texts without letters outside ASCII, in which no object has members. -/
def plainLibrary : Library where
  nfc := id
  letter := Char.isAlpha
  number := Char.isDigit
  fromStr := fun s => if s = "\x7b\x7d" then .ok (.obj []) else .error "expected value"
  debug := Value.quote

/-- A planner whose provider always calls one tool. -/
def callingPlanner (name : String) : Planner Unit where
  complete := fun _ _ _ world => (.ok ⟨[.toolUse "1" none name (.obj [])], .toolUse⟩, world)
  curatedState := fun world => (.error (.stateUnavailable ""), world)
  queryAction := fun _ _ world => (.error (.stateUnavailable ""), world)
  currentUser := fun world => (.error (.stateUnavailable ""), world)
  rateLimiter := none
  prefsPath := none
  tools := []
  buildSystemPrompt := fun _ => ""
  maxTurns := 1
  maxTurns_pos := le_rfl

/-- Does a request end in a panic? -/
def panics : Except (Stop PlanningError) Plan → Bool
  | .error (.panic _) => true
  | _ => false

/-- The provider names a tool with an escape before a character of two bytes. -/
theorem not_planned : ¬ ∀ (σ : Type) (lib : Library) (p : Planner σ) (request : String)
    (feedback : Option String) (host : Host σ),
    Planned lib p (trim request) host (planIntentWithContext lib p request feedback host) := by
  intro h
  have hplanned := h Unit plainLibrary (callingPlanner "\x1Bé") "hi" none ⟨(), none, none⟩
  have hstops : panics (planIntentWithContext plainLibrary (callingPlanner "\x1Bé") "hi" none
      ⟨(), none, none⟩).outcome = true := by decide +kernel
  have hreturns := hplanned.returns
  generalize (planIntentWithContext plainLibrary (callingPlanner "\x1Bé") "hi" none
    ⟨(), none, none⟩).outcome = outcome at hstops hreturns
  rcases outcome with (stop | e) | plan
  · exact hreturns stop rfl
  · cases hstops
  · cases hstops

end Sysknife.Brain
