import Sysknife.Actions.Catalogue
import Sysknife.Brain.Feedback
import Sysknife.Brain.Planner
import Sysknife.Cli.Client

/-!
# Correcting the parameters of a plan

The command line builds every action of a plan as the daemon would, before the plan is shown. What
the daemon would not run is said to the planner in a second request: the intent, an empty line and
the error (`plan_intent_with_param_correction` in `runner.rs`). The planner screens the text of a
request, whoever wrote it.

* `rejectUnrunnableParams_eq_ok`: a plan passes if and only if each of its actions can be built.
* `admitRequest_of_letIn`, `admitRequest_of_not_letIn`: a request is refused for its text, or else
  only by the rate limiter.
* `reported_iff`: **what comes back from the second request is an answer to it, and not a refusal
  of its text, if and only if the text has room for the error and the intent leaves no credential
  open that the error goes on with.**
-/

namespace Sysknife.Cli

open Brain Slices Marks

/-! ### Plans that the daemon cannot run -/

/-- The error of the first step that cannot be built. -/
def rejectUnrunnableSteps (c : Catalogue) : List Brain.PlanStep → Except CliError Unit
  | [] => .ok ()
  | step :: steps =>
    match c.buildActionSpec step.actionName.name step.params with
    | .error e => .error (.planningFailed ("step " ++ step.actionName.name ++
        " has parameters the daemon cannot run: " ++ e.message))
    | .ok _ => rejectUnrunnableSteps c steps

def rejectUnrunnableParams (c : Catalogue) (plan : Plan) : Except CliError Unit :=
  rejectUnrunnableSteps c plan.steps

theorem rejectUnrunnableParams_eq_ok {c : Catalogue} {plan : Plan} :
    rejectUnrunnableParams c plan = .ok () ↔
      ∀ step ∈ plan.steps,
        ∃ spec, c.buildActionSpec step.actionName.name step.params = .ok spec := by
  rw [rejectUnrunnableParams]
  generalize plan.steps = steps
  induction steps with
  | nil => exact iff_of_true rfl nofun
  | cons step steps ih =>
    rw [rejectUnrunnableSteps, List.forall_mem_cons, ← ih]
    cases c.buildActionSpec step.actionName.name step.params with
    | error e => exact iff_of_false nofun fun h => nomatch h.1
    | ok spec => exact (and_iff_right ⟨spec, rfl⟩).symm

/-- Why there is no plan: an error of the command, or the planner's refusal. -/
inductive PlanFailure
  | refused (reason : String) (suggestion : Option String)
  | failed (error : CliError)
  deriving DecidableEq, Repr

def planningErrorToCli : PlanningError → PlanFailure
  | .refused reason suggestion => .refused reason suggestion
  | other => .failed (.planningFailed other.message)

def stopToCli : Stop PlanningError → Stop PlanFailure
  | .panic p => .panic p
  | .error e => .error (planningErrorToCli e)

/-! ### The second request -/

def correctionOpening : String :=
  "The daemon rejected your previous plan with this exact error: \""

def correctionClosing : String :=
  "\". Correct the plan parameters and call `propose_plan` again. " ++
    "Preserve the requested action and intent."

/-- What is said to the planner about the error. -/
def correctionFeedback (error : CliError) : String :=
  correctionOpening ++ error.message ++ correctionClosing

section Correction

variable {σ : Type} (lib : Library) (p : Planner σ) (c : Catalogue) (intent : String)

/-- A plan is passed on if the daemon can run it. -/
def judge : Except (Stop PlanningError) Plan → Except (Stop PlanFailure) Plan
  | .error stop => .error (stopToCli stop)
  | .ok plan =>
    match rejectUnrunnableParams c plan with
    | .error error => .error (.error (.failed error))
    | .ok () => .ok plan

/-- Plan once, and once more if the daemon cannot run the plan. -/
def planIntentWithParamCorrection (host : Host σ) : Except (Stop PlanFailure) Plan × Host σ :=
  let first := planIntentWithContext lib p intent none host
  match first.outcome with
  | .error stop => (.error (stopToCli stop), first.host)
  | .ok plan =>
    match rejectUnrunnableParams c plan with
    | .ok () => (.ok plan, first.host)
    | .error error =>
      let second := planIntentWithContext lib p intent (some (correctionFeedback error)) first.host
      (judge c second.outcome, second.host)

/-- The text of the second request. -/
def secondRequest (error : CliError) : String :=
  trim intent ++ "\n\n" ++ correctionFeedback error

/-- A text that passes the screens of a request. -/
structure LetIn (text : String) : Prop where
  short : size text.toList ≤ intentMaxBytes
  clean : containsSensitive lib.letter lib.number text.toList = false

/-- The screens let the second request in, and the result is that of the planner's turns on it, or
that there is no token for another request. -/
structure Reported (host : Host σ) (error : CliError) (result : Except (Stop PlanFailure) Plan) :
    Prop where
  letIn : LetIn lib (secondRequest intent error)
  limited (secs : ℕ) (after : Host σ) (h : consume p host = (.error secs, after)) :
    result = .error (.error (planningErrorToCli (.rateLimitExceeded secs)))
  answered (after : Host σ) (h : consume p host = (.ok (), after)) :
    result = judge c (runTurns lib p (trim intent)
      (p.buildSystemPrompt (readPrefsAsync lib p after.prefs)) p.maxTurns 0
        [.userText (secondRequest intent error)] [] after).outcome

/-- There is room for the error behind the intent, and the two make no credential. -/
structure HasRoom (error : CliError) : Prop where
  short : size (trim intent).toList + size error.message.toList + 168 ≤ intentMaxBytes
  clean : containsSensitive lib.letter lib.number (correctionFeedback error).toList = false
  closed : ¬ LeavesOpen (trim intent).toList (correctionFeedback error).toList

end Correction

section Screens

variable {σ : Type} {lib : Library} {p : Planner σ} {c : Catalogue} {intent text : String}
  {host : Host σ}

/-- A text that passes costs a token. -/
theorem admitRequest_of_letIn (h : LetIn lib text) : admitRequest lib p text host =
    match consume p host with
    | (.error secs, after) => (.error (.rateLimitExceeded secs), after)
    | (.ok (), after) => (.ok (), after) := by
  refine (if_neg (not_lt.mpr h.short)).trans ?_
  exact if_neg (ne_true_of_eq_false h.clean)

theorem admitRequest_of_not_letIn (h : ¬ LetIn lib text) : ∃ e, admitRequest lib p text host =
    (.error e, host) ∧ (e = .intentTooLong (size text.toList) intentMaxBytes ∨
      e = .intentContainsSensitiveData) := by
  rw [admitRequest]
  split_ifs with hlong hsensitive
  · exact ⟨_, rfl, .inl rfl⟩
  · exact ⟨_, rfl, .inr rfl⟩
  · exact absurd ⟨not_lt.mp hlong, Bool.eq_false_iff.mpr hsensitive⟩ h

/-- A request that comes to a plan passed the screens, and said something. -/
theorem letIn_of_planned {plan : Plan}
    (h : (planIntentWithContext lib p intent none host).outcome = .ok plan) :
    trim intent ≠ "" ∧ LetIn lib (trim intent) := by
  rw [planIntentWithContext] at h
  have hempty : trim intent ≠ "" := by
    intro hempty
    rw [if_pos hempty] at h
    cases h
  refine ⟨hempty, ?_⟩
  by_contra hscreen
  obtain ⟨e, hrefused, -⟩ := @admitRequest_of_not_letIn σ lib p _ host hscreen
  simp only [if_neg hempty, hrefused] at h
  cases h

theorem toList_secondRequest (error : CliError) : (secondRequest intent error).toList =
    (trim intent).toList ++ (gap ++ (correctionFeedback error).toList) := by
  have hgap : "\n\n".toList = gap := by decide
  rw [secondRequest, String.toList_append, String.toList_append, List.append_assoc, hgap]

theorem toList_correctionFeedback (error : CliError) : (correctionFeedback error).toList =
    correctionOpening.toList ++ (error.message.toList ++ correctionClosing.toList) := by
  rw [correctionFeedback, String.toList_append, String.toList_append, List.append_assoc]

theorem size_correctionFeedback (error : CliError) :
    size (correctionFeedback error).toList = size error.message.toList + 166 := by
  have hopening : size correctionOpening.toList = 63 := by decide +kernel
  have hclosing : size correctionClosing.toList = 103 := by decide +kernel
  rw [toList_correctionFeedback, size_append, size_append, hopening, hclosing]
  omega

theorem announces_correctionFeedback (error : CliError) :
    Announces (correctionFeedback error).toList := by
  have hopening : correctionOpening.toList = "The ".toList ++ correctionOpening.toList.drop 4 := by
    decide +kernel
  refine ⟨correctionOpening.toList.drop 4 ++ (error.message.toList ++ correctionClosing.toList), ?_⟩
  rw [toList_correctionFeedback, hopening, List.append_assoc]
  rfl

/-- What is trimmed ends with ink. -/
theorem endsInk_trim (s : String) : EndsInk (trim s).toList := by
  rw [trim, String.toList_ofList]
  generalize s.toList.dropWhile isWhitespace = t
  intro a ha hblank
  by_cases hne : t.rdropWhile isWhitespace = []
  · rw [hne] at ha
    cases ha
  · have hlast := List.rdropWhile_last_not isWhitespace t hne
    rw [List.getLast?_eq_some_getLast hne] at ha
    obtain rfl := Option.some.inj ha
    exact hlast hblank

/-- The second request passes if there is room for the error, given that the first one did. -/
theorem letIn_secondRequest_iff
    (hclasses : ∀ a, isWhitespace a = true → lib.letter a = false ∧ lib.number a = false)
    (hletter : ∀ a ∈ ['T', 'h', 'e'], lib.letter a = true) (hfirst : LetIn lib (trim intent))
    (error : CliError) : LetIn lib (secondRequest intent error) ↔ HasRoom lib intent error := by
  have hsize : size (secondRequest intent error).toList =
      size (trim intent).toList + size error.message.toList + 168 := by
    have hgap : size gap = 2 := by decide
    rw [toList_secondRequest, size_append, size_append, hgap, size_correctionFeedback]
    omega
  have hsensitive := containsSensitive_joined_iff hclasses hletter (endsInk_trim intent)
    (announces_correctionFeedback error)
  rw [← toList_secondRequest, hfirst.clean] at hsensitive
  constructor
  · intro h
    rw [h.clean] at hsensitive
    have hneither := mt hsensitive.mpr Bool.false_ne_true
    rw [not_or, not_or] at hneither
    exact ⟨hsize ▸ h.short, Bool.eq_false_iff.mpr hneither.2.1, hneither.2.2⟩
  · intro h
    refine ⟨hsize ▸ h.short, Bool.eq_false_iff.mpr fun htrue => ?_⟩
    rcases hsensitive.mp htrue with hpart | hpart | hopen
    · cases hpart
    · rw [h.clean] at hpart
      cases hpart
    · exact h.closed hopen

/-- What the second request comes to is judged like a first one. -/
theorem planIntentWithParamCorrection_of_refused {plan : Plan} {error : CliError}
    (hfirst : (planIntentWithContext lib p intent none host).outcome = .ok plan)
    (hrefused : rejectUnrunnableParams c plan = .error error) :
    (planIntentWithParamCorrection lib p c intent host).1 =
      judge c (planIntentWithContext lib p intent (some (correctionFeedback error))
        (planIntentWithContext lib p intent none host).host).outcome := by
  rw [planIntentWithParamCorrection, hfirst]
  simp only [hrefused]

/-- Without room the planner is not asked again: the result is a refusal of the joined text. -/
theorem hidden_of_not_hasRoom {plan : Plan} {error : CliError}
    (hclasses : ∀ a, isWhitespace a = true → lib.letter a = false ∧ lib.number a = false)
    (hletter : ∀ a ∈ ['T', 'h', 'e'], lib.letter a = true)
    (hfirst : (planIntentWithContext lib p intent none host).outcome = .ok plan)
    (hrefused : rejectUnrunnableParams c plan = .error error) (h : ¬ HasRoom lib intent error) :
    ∃ e, (e = .intentTooLong (size (secondRequest intent error).toList) intentMaxBytes ∨
      e = .intentContainsSensitiveData) ∧
        (planIntentWithParamCorrection lib p c intent host).1 =
          .error (.error (planningErrorToCli e)) := by
  obtain ⟨hempty, hadmitted⟩ := letIn_of_planned hfirst
  rw [← letIn_secondRequest_iff hclasses hletter hadmitted] at h
  rw [planIntentWithParamCorrection_of_refused hfirst hrefused]
  generalize (planIntentWithContext lib p intent none host).host = between
  obtain ⟨e, hrefusal, he⟩ := @admitRequest_of_not_letIn σ lib p _ between h
  refine ⟨e, he, ?_⟩
  rw [planIntentWithContext, if_neg hempty]
  simp only [← secondRequest.eq_1, hrefusal]
  rfl

end Screens

/-- **What comes of an error in the parameters of a first plan.** The second request passes the
screens, and its result is a corrected plan, what stopped the planner or the error of the second
plan, if and only if there is room for the error. -/
theorem reported_iff {σ : Type} (lib : Library) (p : Planner σ) (c : Catalogue) (intent : String)
    (host : Host σ) (plan : Plan) (error : CliError)
    (hclasses : ∀ a, isWhitespace a = true → lib.letter a = false ∧ lib.number a = false)
    (hletter : ∀ a ∈ ['T', 'h', 'e'], lib.letter a = true)
    (hfirst : (planIntentWithContext lib p intent none host).outcome = .ok plan)
    (hrefused : rejectUnrunnableParams c plan = .error error) :
    Reported lib p c intent (planIntentWithContext lib p intent none host).host error
        (planIntentWithParamCorrection lib p c intent host).1 ↔
      HasRoom lib intent error := by
  obtain ⟨hempty, hadmitted⟩ := letIn_of_planned hfirst
  rw [← letIn_secondRequest_iff hclasses hletter hadmitted]
  refine ⟨Reported.letIn, fun hroom => ?_⟩
  rw [planIntentWithParamCorrection_of_refused hfirst hrefused]
  generalize (planIntentWithContext lib p intent none host).host = between
  have hadmit := @admitRequest_of_letIn σ lib p _ between hroom
  refine ⟨hroom, fun secs after h => ?_, fun after h => ?_⟩
  · rw [h] at hadmit
    rw [planIntentWithContext, if_neg hempty]
    simp only [← secondRequest.eq_1, hadmit]
    rfl
  · rw [h] at hadmit
    rw [planIntentWithContext, if_neg hempty]
    simp only [← secondRequest.eq_1, hadmit]

/-- A planner whose provider always proposes to show the logs of a service that it does not name. -/
def logsPlanner : Planner Unit where
  complete := fun _ _ _ world => (.ok ⟨[.toolUse "1" none "propose_plan" (.obj
    [("summary", .str "Logs"), ("explanation", .str "Show the logs."), ("steps", .arr [.obj
      [("action_name", .str "GetServiceLogs"), ("summary", .str "Show the logs"),
        ("risk_level", .str "low")]])])], .toolUse⟩, world)
  curatedState := fun world => (.error (.stateUnavailable ""), world)
  queryAction := fun _ _ world => (.error (.stateUnavailable ""), world)
  currentUser := fun world => (.error (.stateUnavailable ""), world)
  rateLimiter := none
  prefsPath := none
  tools := []
  buildSystemPrompt := fun _ => ""
  maxTurns := 1
  maxTurns_pos := Nat.one_pos

/-- No other arm of the catalogue is asked for. -/
def logsCatalogue : Catalogue := ⟨fun _ => none, fun name _ => .error (.unknownAction name)⟩

/-- The service is missing. -/
def unitMissing : CliError :=
  .planningFailed
    "step GetServiceLogs has parameters the daemon cannot run: missing required param: unit"

theorem exists_logsPlan (intent : String)
    (h : (match (planIntentWithContext plainLibrary logsPlanner intent none
        ⟨(), none, none⟩).outcome with
      | .ok plan => decide (rejectUnrunnableParams logsCatalogue plan = .error unitMissing)
      | .error _ => false) = true) :
    ∃ plan, (planIntentWithContext plainLibrary logsPlanner intent none
      ⟨(), none, none⟩).outcome = .ok plan ∧
        rejectUnrunnableParams logsCatalogue plan = .error unitMissing := by
  generalize (planIntentWithContext plainLibrary logsPlanner intent none
    ⟨(), none, none⟩).outcome = outcome at h
  cases outcome with
  | error stop => cases h
  | ok plan => exact ⟨plan, rfl, of_decide_eq_true h⟩

theorem plainLibrary_letters : ∀ a ∈ ['T', 'h', 'e'], plainLibrary.letter a = true := by
  have hall : ['T', 'h', 'e'].all Char.isAlpha = true := by decide
  exact List.all_eq_true.mp hall

theorem reported_iff_logs : ∃ plan,
    (planIntentWithContext plainLibrary logsPlanner "show the logs" none
      ⟨(), none, none⟩).outcome = .ok plan ∧
    rejectUnrunnableParams logsCatalogue plan = .error unitMissing ∧
    (Reported plainLibrary logsPlanner logsCatalogue "show the logs"
      (planIntentWithContext plainLibrary logsPlanner "show the logs" none ⟨(), none, none⟩).host
      unitMissing (planIntentWithParamCorrection plainLibrary logsPlanner logsCatalogue
        "show the logs" ⟨(), none, none⟩).1 ↔
      HasRoom plainLibrary "show the logs" unitMissing) := by
  obtain ⟨plan, hplan, hrefused⟩ := exists_logsPlan "show the logs" (by decide +kernel)
  exact ⟨plan, hplan, hrefused, reported_iff plainLibrary logsPlanner logsCatalogue
    "show the logs" ⟨(), none, none⟩ plan unitMissing blank_not_letter plainLibrary_letters hplan
    hrefused⟩

/-- The intent ends with a colon behind the word `token`, and the feedback goes on as its value. -/
theorem not_reported : ¬ ∀ (σ : Type) (lib : Library) (p : Planner σ) (c : Catalogue)
    (intent : String) (host : Host σ) (plan : Plan) (error : CliError),
    (∀ a, isWhitespace a = true → lib.letter a = false ∧ lib.number a = false) →
    (∀ a ∈ ['T', 'h', 'e'], lib.letter a = true) →
    (planIntentWithContext lib p intent none host).outcome = .ok plan →
    rejectUnrunnableParams c plan = .error error →
    Reported lib p c intent (planIntentWithContext lib p intent none host).host error
      (planIntentWithParamCorrection lib p c intent host).1 := by
  intro h
  obtain ⟨plan, hplan, hrefused⟩ := exists_logsPlan "show the logs about token:" (by decide +kernel)
  have hreported := h Unit plainLibrary logsPlanner logsCatalogue "show the logs about token:"
    ⟨(), none, none⟩ plan unitMissing blank_not_letter plainLibrary_letters hplan hrefused
  have hadmitted := (letIn_of_planned hplan).2
  have hroom := (letIn_secondRequest_iff blank_not_letter plainLibrary_letters hadmitted
    unitMissing).mp hreported.letIn
  have hopen : openAssignment.finds (trim "show the logs about token:").toList = true := by
    decide +kernel
  exact hroom.closed (.inl hopen)

end Sysknife.Cli
