import Sysknife.Brain.Planner
import Sysknife.Cli.Approval
import Sysknife.Shell.Backend

/-!
# The consent of the desktop shell

`plan_to_response` (`commands.rs`) hands a plan to the frontend with the risk that the model
proposed for each step. `PlanPane` asks for one confirmation of the whole plan, by the highest of
these risks: none for low, a checkbox for medium, the name of an action for high. The steps are
then executed; the risk in the daemon's preview of a step is not looked at.

* `confirmed_iff`: a plan that is approved was confirmed for every risk up to the highest proposed
  one, and for no other.
* `consented_iff`: **everything that is executed was confirmed for the risk the daemon gives it if
  and only if no step that is executed has a risk above every proposed one.**
-/

namespace Sysknife.Shell

/-! ### The plan as it is handed over -/

/-- `requires_approval` -/
def requiresApproval (risk : Brain.PlanRiskLevel) : Bool := risk != .low

def planStepResponse (step : Brain.PlanStep) : PlanStepResponse where
  actionName := step.actionName.name
  summary := step.summary
  -- the proposed risk; the command line puts the risk of the action in its place
  riskLevel := step.riskLevel
  approvalRequired := requiresApproval step.riskLevel
  params := step.params

def planToResponse (plan : Brain.Plan) (curated : Brain.CuratedState) : PlanResponse where
  summary := plan.summary
  explanation := plan.explanation
  approvalRequired := plan.steps.any fun step => requiresApproval step.riskLevel
  steps := plan.steps.map planStepResponse
  hostName := curated.hostName
  deployment := curated.deployment
  toolboxCount := curated.toolboxes.length
  flatpakCount := curated.flatpaks.length

/-! ### The gate -/

def aggregateRisk (steps : List PlanStepResponse) : RiskLevel :=
  if steps.any fun s => s.riskLevel == .high then .high
  else if steps.any fun s => s.riskLevel == .medium then .medium
  else .low

def firstHighRiskName (steps : List PlanStepResponse) : String :=
  ((steps.find? fun s => s.riskLevel == .high).map PlanStepResponse.actionName).getD ""

/-- A plan as it is shown, and what has been entered. -/
structure PlanPane where
  plan : PlanResponse
  /-- `showGate` -/
  showGate : Bool
  checked : Bool
  confirmText : String

/-- What the operator does. -/
inductive Gesture
  | check (checked : Bool)
  | type (confirmText : String)
  | approve

namespace PlanPane

variable (pane : PlanPane)

def risk : RiskLevel := aggregateRisk pane.plan.steps

def highRiskName : String := firstHighRiskName pane.plan.steps

def approveEnabled : Bool :=
  pane.risk == .low || (pane.risk == .medium && pane.checked) ||
    (pane.risk == .high && pane.confirmText == pane.highRiskName)

/-- There is a button, and it is not disabled. -/
def hasButton : Bool :=
  pane.showGate &&
    match pane.risk with
    | .low => true
    | .medium => pane.checked
    | .high => pane.approveEnabled

/-- An input is there for its risk only. -/
def enter : Gesture → PlanPane
  | .check checked =>
    if pane.showGate && pane.risk == .medium then { pane with checked } else pane
  | .type confirmText =>
    if pane.showGate && pane.risk == .high then { pane with confirmText } else pane
  | .approve => pane

/-- The pane as it is when the plan is approved, if it is. -/
def approved (pane : PlanPane) : List Gesture → Option PlanPane
  | [] => none
  | .approve :: rest => if pane.hasButton then some pane else approved pane rest
  | gesture :: rest => approved (pane.enter gesture) rest

end PlanPane

/-- `requestApproval`: the steps that are to be executed. `replies` is what comes back on the
connection of each. -/
def requestApproval (steps : List PlanStepResponse) (replies : ℕ → StepReplies) :
    List (PlanStepRequest × StepReplies) :=
  steps.mapIdx fun i step => (⟨step.actionName, step.params⟩, replies i)

/-! ### Consent -/

/-- What the gate of a risk asks for. -/
def PlanPane.passes (pane : PlanPane) : RiskLevel → Prop
  | .low => True
  | .medium => pane.checked = true
  | .high => pane.confirmText = pane.highRiskName

/-- The gate that was passed is that of this risk or of a higher one. -/
def PlanPane.Confirmed (pane : PlanPane) (risk : RiskLevel) : Prop :=
  ∃ level, risk ≤ level ∧ pane.risk = level ∧ pane.passes level

/-- The risk that the daemon gives an action. -/
def previewRisk (response : Value) : Option RiskLevel :=
  match text ((response.get "preview").getD .null) "risk_level" with
  | some "low" => some .low
  | some "medium" => some .medium
  | some "high" => some .high
  | _ => none

/-- Everything that is executed was confirmed for the risk the daemon gives it. -/
def Consented (pane : PlanPane) (approved : Approved) : Prop :=
  ∀ log ∈ approved.run.logs, ∀ preview risk, ExecutedUnder log preview →
    previewRisk preview = some risk → pane.Confirmed risk

/-- No step that is executed has a risk above every proposed one. -/
def WithinProposal (plan : Brain.Plan) (replies : ℕ → StepReplies) : Prop :=
  ∀ i < plan.steps.length, (∀ j < i, Succeeds (replies j)) →
    ∀ preview approval transactionId receipt risk,
      Accepted (replies i) preview approval transactionId receipt →
        previewRisk preview = some risk → ∃ step ∈ plan.steps, risk ≤ step.riskLevel

section Gate

variable {steps : List PlanStepResponse} {pane pane' : PlanPane} {risk : RiskLevel}

theorem le_high (risk : RiskLevel) : risk ≤ .high := by
  cases risk <;> decide

theorem le_medium (h : risk ≠ .high) : risk ≤ .medium := by
  cases risk with
  | high => exact absurd rfl h
  | _ => decide

theorem le_low (h : risk ≠ .high) (h' : risk ≠ .medium) : risk ≤ .low := by
  cases risk with
  | low => exact le_rfl
  | medium => exact absurd rfl h'
  | high => exact absurd rfl h

theorem low_le (risk : RiskLevel) : .low ≤ risk := by
  cases risk <;> decide

theorem eq_low (h : risk ≤ .low) : risk = .low := le_antisymm h (low_le risk)

/-- The highest of the risks. -/
theorem le_aggregateRisk :
    risk ≤ aggregateRisk steps ↔ risk = .low ∨ ∃ s ∈ steps, risk ≤ s.riskLevel := by
  rw [aggregateRisk]
  split_ifs with hhigh hmedium
  · obtain ⟨s, hs, hrisk⟩ := List.any_eq_true.mp hhigh
    exact iff_of_true (le_high risk) (.inr ⟨s, hs, (eq_of_beq hrisk).symm ▸ le_high risk⟩)
  · obtain ⟨s, hs, hrisk⟩ := List.any_eq_true.mp hmedium
    constructor
    · exact fun hle => .inr ⟨s, hs, (eq_of_beq hrisk).symm ▸ hle⟩
    · rintro (rfl | ⟨t, ht, hle⟩)
      · decide
      · have hne : t.riskLevel ≠ .high :=
          fun heq => hhigh (List.any_eq_true.mpr ⟨t, ht, beq_iff_eq.mpr heq⟩)
        exact hle.trans (le_medium hne)
  · constructor
    · exact fun hle => .inl (eq_low hle)
    · rintro (rfl | ⟨t, ht, hle⟩)
      · exact le_rfl
      · have hne : t.riskLevel ≠ .high :=
          fun heq => hhigh (List.any_eq_true.mpr ⟨t, ht, beq_iff_eq.mpr heq⟩)
        have hne' : t.riskLevel ≠ .medium :=
          fun heq => hmedium (List.any_eq_true.mpr ⟨t, ht, beq_iff_eq.mpr heq⟩)
        exact hle.trans (le_low hne hne')

/-- The button is there once the gate is passed. -/
theorem hasButton_iff : pane.hasButton = true ↔ pane.showGate = true ∧ pane.passes pane.risk := by
  rw [PlanPane.hasButton, Bool.and_eq_true]
  refine and_congr_right fun _ => ?_
  cases hrisk : pane.risk with
  | low => simp [PlanPane.passes]
  | medium => simp [PlanPane.passes]
  | high => simp [PlanPane.passes, PlanPane.approveEnabled, hrisk]

theorem confirmed_iff (h : pane.hasButton = true) : pane.Confirmed risk ↔ risk ≤ pane.risk := by
  obtain ⟨-, hpasses⟩ := hasButton_iff.mp h
  constructor
  · rintro ⟨level, hle, rfl, -⟩
    exact hle
  · exact fun hle => ⟨pane.risk, hle, rfl, hpasses⟩

theorem plan_enter (gesture : Gesture) : (pane.enter gesture).plan = pane.plan := by
  cases gesture with
  | approve => rfl
  | _ =>
    rw [PlanPane.enter]
    split_ifs
    · rfl
    · rfl

/-- What is approved is the plan that is shown, with its button. -/
theorem of_approved {gestures : List Gesture} (h : pane.approved gestures = some pane') :
    pane'.plan = pane.plan ∧ pane'.hasButton = true := by
  induction gestures generalizing pane with
  | nil => cases h
  | cons gesture rest ih =>
    cases gesture with
    | approve =>
      rw [PlanPane.approved] at h
      split_ifs at h with hbutton
      · obtain rfl := Option.some.inj h
        exact ⟨rfl, hbutton⟩
      · exact ih h
    | check checked =>
      obtain ⟨hplan, hbutton⟩ := ih h
      exact ⟨hplan.trans (plan_enter _), hbutton⟩
    | type confirmText =>
      obtain ⟨hplan, hbutton⟩ := ih h
      exact ⟨hplan.trans (plan_enter _), hbutton⟩

/-- Every plan can be approved. -/
theorem exists_approved (hgate : pane.showGate = true) :
    ∃ gestures pane', pane.approved gestures = some pane' := by
  cases hrisk : pane.risk with
  | low =>
    have hbutton : pane.hasButton = true := hasButton_iff.mpr ⟨hgate, by rw [hrisk]; trivial⟩
    exact ⟨[.approve], pane, if_pos hbutton⟩
  | medium =>
    have henter : pane.enter (.check true) = { pane with checked := true } := by
      rw [PlanPane.enter, hgate, hrisk]
      rfl
    have hbutton : PlanPane.hasButton { pane with checked := true } = true := by
      refine hasButton_iff.mpr ⟨hgate, ?_⟩
      show PlanPane.passes _ pane.risk
      rw [hrisk]
      rfl
    refine ⟨[.check true, .approve], { pane with checked := true }, ?_⟩
    rw [PlanPane.approved, henter]
    · exact if_pos hbutton
    · exact Gesture.noConfusion
  | high =>
    have henter : pane.enter (.type pane.highRiskName) =
        { pane with confirmText := pane.highRiskName } := by
      rw [PlanPane.enter, hgate, hrisk]
      rfl
    have hbutton :
        PlanPane.hasButton { pane with confirmText := pane.highRiskName } = true := by
      refine hasButton_iff.mpr ⟨hgate, ?_⟩
      show PlanPane.passes _ pane.risk
      rw [hrisk]
      rfl
    refine ⟨[.type pane.highRiskName, .approve],
      { pane with confirmText := pane.highRiskName }, ?_⟩
    rw [PlanPane.approved, henter]
    · exact if_pos hbutton
    · exact Gesture.noConfusion

/-- A plan has a step, so its risk is that of one of its steps. -/
theorem le_risk_planToResponse {plan : Brain.Plan} {curated : Brain.CuratedState} :
    risk ≤ aggregateRisk (planToResponse plan curated).steps ↔
      ∃ step ∈ plan.steps, risk ≤ step.riskLevel := by
  rw [le_aggregateRisk]
  constructor
  · rintro (rfl | ⟨s, hs, hle⟩)
    · obtain ⟨step, hstep⟩ := List.exists_mem_of_ne_nil _ plan.steps_ne
      exact ⟨step, hstep, low_le _⟩
    · obtain ⟨step, hstep, rfl⟩ := List.mem_map.mp hs
      exact ⟨step, hstep, hle⟩
  · rintro ⟨step, hstep, hle⟩
    exact .inr ⟨planStepResponse step, List.mem_map_of_mem hstep, hle⟩

end Gate

/-! ### What is executed -/

section Executed

variable {plan : Brain.Plan} {curated : Brain.CuratedState} {app : AppHandle}
  {socketPath : String} {steps : List PlanStepResponse} {replies : ℕ → StepReplies}
  {log : List Exchange}

/-- A step is run if every step before it succeeded. -/
theorem runLog_requestApproval :
    RunLog app socketPath (requestApproval steps replies) log ↔
      ∃ before step after, steps = before ++ step :: after ∧
        (∀ j < before.length, Succeeds (replies j)) ∧
          log = (executeAction app socketPath step.actionName step.params
            (replies before.length)).log := by
  constructor
  · rintro ⟨before', step', stepReplies, after', heq, hbefore, rfl⟩
    obtain ⟨before, rest, rfl, rfl, hrest⟩ := List.mapIdx_eq_append_iff.mp heq
    obtain ⟨step, after, rfl, hstep, -⟩ := List.mapIdx_eq_cons_iff.mp hrest
    rw [Nat.zero_add] at hstep
    obtain ⟨rfl, rfl⟩ := Prod.mk.inj hstep
    exact ⟨before, step, after, rfl,
      fun j hj => hbefore _ (List.mem_mapIdx.mpr ⟨j, hj, rfl⟩), rfl⟩
  · rintro ⟨before, step, after, rfl, hbefore, rfl⟩
    have hsteps : requestApproval (before ++ step :: after) replies =
        requestApproval before replies ++
          (⟨step.actionName, step.params⟩, replies before.length) ::
            after.mapIdx fun i s =>
              (⟨s.actionName, s.params⟩, replies (i + 1 + before.length)) := by
      rw [requestApproval, List.mapIdx_append, List.mapIdx_cons, Nat.zero_add]
      rfl
    refine ⟨_, _, _, _, hsteps, fun s hs => ?_, rfl⟩
    obtain ⟨j, hj, rfl⟩ := List.mem_mapIdx.mp hs
    exact hbefore j hj

/-- What is executed, and under which preview. -/
theorem executedUnder_requestApproval {preview : Value} :
    (∃ log ∈ (approvePreview app socketPath (requestApproval steps replies)).run.logs,
      ExecutedUnder log preview) ↔
        ∃ i < steps.length, (∀ j < i, Succeeds (replies j)) ∧
          ∃ approval transactionId receipt,
            Accepted (replies i) preview approval transactionId receipt := by
  rw [run_approvePreview]
  constructor
  · rintro ⟨log, hlog, hexecuted⟩
    obtain ⟨before, step, after, rfl, hbefore, rfl⟩ :=
      runLog_requestApproval.mp ((mem_logs_runSteps.mp hlog).resolve_left List.not_mem_nil)
    refine ⟨before.length, ?_, hbefore, ?_⟩
    · rw [List.length_append, List.length_cons]
      omega
    · exact (@executedUnder_iff app socketPath ⟨step.actionName, step.params⟩ _ _).mp hexecuted
  · rintro ⟨i, hi, hbefore, haccepted⟩
    have hlength : (steps.take i).length = i := List.length_take_of_le hi.le
    have hlog : RunLog app socketPath (requestApproval steps replies)
        (executeAction app socketPath steps[i].actionName steps[i].params
          (replies i)).log := by
      refine runLog_requestApproval.mpr ⟨steps.take i, steps[i], steps.drop (i + 1), ?_, ?_, ?_⟩
      · rw [List.getElem_cons_drop, List.take_append_drop]
      · rwa [hlength]
      · rw [hlength]
    exact ⟨_, mem_logs_runSteps.mpr (.inr hlog),
      (@executedUnder_iff app socketPath ⟨steps[i].actionName, steps[i].params⟩ _ _).mpr
        haccepted⟩

/-- If every approval is consent, some proposed risk is as high as that of the daemon. -/
theorem withinProposal_of_consented
    (h : ∀ (pane pane' : PlanPane) (gestures : List Gesture),
      pane.plan = planToResponse plan curated → pane.approved gestures = some pane' →
        Consented pane' (approvePreview app socketPath
          (requestApproval pane'.plan.steps replies))) :
    WithinProposal plan replies := by
  intro i hi hbefore preview approval transactionId receipt risk haccepted hrisk
  obtain ⟨gestures, pane', hpane'⟩ :=
    @exists_approved ⟨planToResponse plan curated, true, false, ""⟩ rfl
  obtain ⟨hplan, hbutton⟩ := of_approved hpane'
  have hlt : i < pane'.plan.steps.length := by
    rw [hplan]
    exact (List.length_map planStepResponse).symm ▸ hi
  obtain ⟨log, hlog, hexecuted⟩ := (@executedUnder_requestApproval app socketPath _ replies _).mpr
    ⟨i, hlt, hbefore, approval, transactionId, receipt, haccepted⟩
  have hconfirmed := h _ pane' gestures rfl hpane' log hlog preview risk hexecuted hrisk
  have hle : risk ≤ aggregateRisk pane'.plan.steps := (confirmed_iff hbutton).mp hconfirmed
  rw [hplan] at hle
  exact le_risk_planToResponse.mp hle

theorem consented_of_withinProposal {pane pane' : PlanPane} {gestures : List Gesture}
    (h : WithinProposal plan replies) (hplan : pane.plan = planToResponse plan curated)
    (happroved : pane.approved gestures = some pane') :
    Consented pane' (approvePreview app socketPath
      (requestApproval pane'.plan.steps replies)) := by
  intro log hlog preview risk hexecuted hrisk
  obtain ⟨hsame, hbutton⟩ := of_approved happroved
  have hsteps : pane'.plan.steps = (planToResponse plan curated).steps := by rw [hsame, hplan]
  obtain ⟨i, hi, hbefore, approval, transactionId, receipt, haccepted⟩ :=
    executedUnder_requestApproval.mp ⟨log, hlog, hexecuted⟩
  have hlt : i < plan.steps.length := by
    rw [hsteps] at hi
    exact (List.length_map planStepResponse) ▸ hi
  have hproposed := h i hlt hbefore preview approval transactionId receipt risk haccepted hrisk
  refine (confirmed_iff hbutton).mpr ?_
  show risk ≤ aggregateRisk pane'.plan.steps
  rw [hsteps]
  exact le_risk_planToResponse.mpr hproposed

end Executed

/-- The model proposes a reboot as an action of low risk. -/
def lowReboot : Brain.Plan where
  intent := "reboot"
  summary := "Reboot the host"
  explanation := "The host is to be rebooted."
  steps := [⟨⟨"RebootSystem", by decide⟩, "Reboot", .low, .obj [], by decide⟩]
  prefChanges := []
  intent_ne := by decide
  summary_ne := by decide
  explanation_ne := by decide
  steps_ne := List.cons_ne_nil _ _

/-- The daemon's answers on a connection, with the risk that it gives a reboot. -/
def highReboot : StepReplies where
  connect := some (.ok ())
  sendPreview := .ok ()
  preview := .message (.obj [("type", .str "preview_response"),
    ("preview", .obj [("risk_level", .str "high")]), ("transaction_id", .str "tx-1")])
  sendApproval := .ok ()
  approval := .message (.obj [("type", .str "approval_response"),
    ("transaction_id", .str "tx-1"), ("approval_receipt", .str "receipt")])
  sendExecute := .ok ()
  execution := []

end Sysknife.Shell
