import Sysknife.Cli.Client

/-!
# The approval policy of the command line

`ApprovalPolicy` decides, from the flags of a run, whether a step is approved without asking,
needs a yes, or is refused (`approval.rs`). The decision about a plan is the worst decision about
its steps.

* `yes_of_autoApproved`, `le_maxRisk`: outside a dry run nothing is approved without `--yes`, high
  risk only with the approval gate lifted, and nothing above `--max-risk` at all.
* `steps_of_decidePlan`, `autoApproved_of_decidePlan`: what the decision about a plan says of its
  steps.
-/

namespace Sysknife

namespace RiskLevel

/-- Position in the order of risks. -/
def rank : RiskLevel → ℕ
  | .low => 0
  | .medium => 1
  | .high => 2

theorem rank_injective : Function.Injective rank := by
  intro a b h
  cases a <;> cases b <;> first | rfl | exact absurd h (by decide)

instance : LinearOrder RiskLevel := LinearOrder.lift' rank rank_injective

end RiskLevel

namespace Cli

/-- The risk of a step, in the words of the planner. -/
abbrev PlanRiskLevel := RiskLevel

/-- Does a ceiling include a risk? -/
def MaxRisk.includes : MaxRisk → PlanRiskLevel → Bool
  | .low, risk => risk == .low
  | .medium, risk => risk == .low || risk == .medium
  | .high, _ => true

theorem MaxRisk.includes_iff {ceiling : MaxRisk} {risk : PlanRiskLevel} :
    MaxRisk.includes ceiling risk = true ↔ risk ≤ ceiling := by
  cases ceiling <;> cases risk <;> decide

/-- The highest risk `--yes` approves. -/
def hardcodedMaxAutoApprove : MaxRisk := .medium

/-- The highest risk `--yes` approves once the operator has lifted the approval gate. -/
def unattendedMaxAutoApprove : MaxRisk := .high

/-- The flags of a run that control approval. -/
structure ApprovalPolicy where
  yes : Bool
  maxRisk : Option MaxRisk
  nonInteractive : Bool
  dryRun : Bool
  skipApproval : Bool

inductive ApprovalDecision
  | autoApproved
  | requiresPrompt
  | requiresInteraction
  | exceedsCeiling (ceiling : MaxRisk)
  deriving DecidableEq, Repr

/-- A step of a plan with its authoritative risk. -/
structure PlanStep where
  actionName : String
  summary : String
  params : Value
  riskLevel : PlanRiskLevel

/-- What a gate does about a decision. -/
inductive GateAction
  | proceed
  | askOperator
  | refuse (error : CliError)

def gateAction (decision : ApprovalDecision) (highest : PlanRiskLevel) : GateAction :=
  match decision with
  | .autoApproved => .proceed
  | .requiresPrompt => .askOperator
  | .requiresInteraction => .refuse .nonInteractive
  | .exceedsCeiling ceiling => .refuse (.riskCeilingExceeded highest ceiling)

namespace ApprovalPolicy

variable (policy : ApprovalPolicy)

/-- What `--yes` approves; nothing without it. -/
def effectiveAutoCeiling : Option MaxRisk :=
  if !policy.yes then none
  else
    let requested := policy.maxRisk.getD .low
    let cap := if policy.skipApproval then unattendedMaxAutoApprove else hardcodedMaxAutoApprove
    some (min requested cap)

/-- The decision about a step of this risk. -/
def decideStep (risk : PlanRiskLevel) : ApprovalDecision :=
  if policy.dryRun then .autoApproved
  else
    match policy.maxRisk.filter fun ceiling => !MaxRisk.includes ceiling risk with
    | some ceiling => .exceedsCeiling ceiling
    | none =>
      if policy.effectiveAutoCeiling.any fun ceiling => MaxRisk.includes ceiling risk then
        .autoApproved
      else if policy.nonInteractive then .requiresInteraction
      else .requiresPrompt

/-- The loop over the steps of a plan. -/
def decideSteps (worst : ApprovalDecision) : List PlanStep → ApprovalDecision
  | [] => worst
  | step :: rest =>
    match policy.decideStep step.riskLevel with
    | .exceedsCeiling ceiling => .exceedsCeiling ceiling
    | .requiresInteraction => .requiresInteraction
    | .requiresPrompt => decideSteps .requiresPrompt rest
    | .autoApproved => decideSteps worst rest

/-- The decision about a plan. -/
def decidePlan (steps : List PlanStep) : ApprovalDecision := policy.decideSteps .autoApproved steps

end ApprovalPolicy

/-- A decision that ends the run. -/
def ApprovalDecision.isTerminal : ApprovalDecision → Bool
  | .exceedsCeiling _ => true
  | .requiresInteraction => true
  | .requiresPrompt => false
  | .autoApproved => false

namespace ApprovalPolicy

variable {policy : ApprovalPolicy} {risk : PlanRiskLevel} {steps : List PlanStep}

/-! ### One step -/

/-- There is a ceiling only under `--yes`; it is medium at most unless the gate is lifted. -/
theorem le_of_effectiveAutoCeiling {ceiling : MaxRisk}
    (h : policy.effectiveAutoCeiling = some ceiling) :
    policy.yes = true ∧ (policy.skipApproval = false → ceiling ≤ .medium) := by
  rw [effectiveAutoCeiling] at h
  cases hyes : policy.yes with
  | false =>
    rw [hyes] at h
    cases h
  | true =>
    rw [hyes] at h
    refine ⟨rfl, fun hskip => ?_⟩
    rw [hskip] at h
    rw [← Option.some.inj h]
    exact min_le_right _ _

/-- Outside a dry run a step is only approved without asking under `--yes`, and one of high risk
only when the approval gate is lifted. -/
theorem yes_of_autoApproved (hdry : policy.dryRun = false)
    (h : policy.decideStep risk = .autoApproved) :
    policy.yes = true ∧ (risk = .high → policy.skipApproval = true) := by
  rw [decideStep, hdry] at h
  simp only [Bool.false_eq_true, reduceIte] at h
  split at h
  · cases h
  · split_ifs at h with hauto
    obtain ⟨ceiling, hceiling, hincludes⟩ := (Option.any_eq_true _ _).mp hauto
    obtain ⟨hyes, hcap⟩ := le_of_effectiveAutoCeiling hceiling
    refine ⟨hyes, fun hhigh => ?_⟩
    subst hhigh
    have hle : RiskLevel.high ≤ ceiling := MaxRisk.includes_iff.mp hincludes
    by_contra hskip
    have hmedium : RiskLevel.high ≤ RiskLevel.medium :=
      hle.trans (hcap (Bool.not_eq_true _ ▸ hskip))
    exact absurd hmedium (by decide)

/-- A step that is not refused respects `--max-risk`. -/
theorem le_maxRisk (hdry : policy.dryRun = false)
    (h : (policy.decideStep risk).isTerminal = false) {ceiling : MaxRisk}
    (hceiling : policy.maxRisk = some ceiling) : risk ≤ ceiling := by
  by_contra hle
  have hincludes : MaxRisk.includes ceiling risk = false := by
    rw [← Bool.not_eq_true]
    exact mt MaxRisk.includes_iff.mp hle
  have hexceeds : policy.decideStep risk = .exceedsCeiling ceiling := by
    simp [decideStep, hdry, hceiling, Option.filter, hincludes]
  rw [hexceeds] at h
  cases h

/-! ### Plans -/

theorem decideSteps_spec (steps : List PlanStep) {worst : ApprovalDecision}
    (hworst : worst.isTerminal = false) :
    ((policy.decideSteps worst steps).isTerminal = false →
      ∀ step ∈ steps, (policy.decideStep step.riskLevel).isTerminal = false) ∧
    (policy.decideSteps worst steps = .autoApproved →
      worst = .autoApproved ∧
        ∀ step ∈ steps, policy.decideStep step.riskLevel = .autoApproved) := by
  induction steps generalizing worst with
  | nil => exact ⟨fun _ _ h => (nomatch h), fun h => ⟨h, fun _ h => (nomatch h)⟩⟩
  | cons step rest ih =>
    rw [decideSteps]
    cases hstep : policy.decideStep step.riskLevel with
    | exceedsCeiling ceiling => exact ⟨fun h => (nomatch h), fun h => (nomatch h)⟩
    | requiresInteraction => exact ⟨fun h => (nomatch h), fun h => (nomatch h)⟩
    | requiresPrompt =>
      have hprompt : ApprovalDecision.requiresPrompt.isTerminal = false := rfl
      obtain ⟨hterminal, hauto⟩ := ih hprompt
      refine ⟨fun h => List.forall_mem_cons.mpr ⟨by rw [hstep]; rfl, hterminal h⟩, fun h => ?_⟩
      cases (hauto h).1
    | autoApproved =>
      obtain ⟨hterminal, hauto⟩ := ih hworst
      refine ⟨fun h => List.forall_mem_cons.mpr ⟨by rw [hstep]; rfl, hterminal h⟩, fun h => ?_⟩
      obtain ⟨hworst', hrest⟩ := hauto h
      exact ⟨hworst', List.forall_mem_cons.mpr ⟨hstep, hrest⟩⟩

/-- A plan that is not refused has no step that is. -/
theorem steps_of_decidePlan (h : (policy.decidePlan steps).isTerminal = false) :
    ∀ step ∈ steps, (policy.decideStep step.riskLevel).isTerminal = false :=
  (decideSteps_spec steps rfl).1 h

/-- A plan that is approved without asking has only such steps. -/
theorem autoApproved_of_decidePlan (h : policy.decidePlan steps = .autoApproved) :
    ∀ step ∈ steps, policy.decideStep step.riskLevel = .autoApproved :=
  ((decideSteps_spec steps rfl).2 h).2

end ApprovalPolicy

end Cli

end Sysknife
