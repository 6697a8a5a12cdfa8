import Sysknife.Actions

/-!
# Authorization policy

The minimum role of an action follows from its risk tier, and an operator's overrides may only
raise it: `PolicyTable` carries that as a field, and `PolicyTable.baseline_le` is what it buys.
-/

namespace Sysknife

/-- The role a risk tier requires. -/
def roleForRiskLevel : RiskLevel → CallerRole
  | .low => .observer
  | .medium => .dev
  | .high => .admin

/-- Actions whose role is not derived from a risk tier. -/
def roleException (actionName : String) : Option CallerRole :=
  if actionName = "ListJobHistory" then some .observer else none

section

variable (specMeta : String → Option SpecMeta)

/-- Compile-time minimum role of an action; `none` for an unknown one. -/
def minRoleForAction (actionName : String) : Option CallerRole :=
  (roleException actionName).or
    ((specMeta actionName).map fun m => roleForRiskLevel m.riskLevel)

/-- The baseline together with the operator's overrides. -/
structure PolicyTable where
  overrides : List (String × CallerRole)
  /-- Overrides only raise. -/
  raises : ∀ entry ∈ overrides, ∀ baseline, minRoleForAction specMeta entry.1 = some baseline →
    baseline ≤ entry.2

end

namespace PolicyTable

variable {specMeta : String → Option SpecMeta}

/-- No overrides. -/
def empty : PolicyTable specMeta := ⟨[], by simp⟩

variable (policy : PolicyTable specMeta)

/-- Effective minimum role of an action. -/
def minRoleForAction (actionName : String) : Option CallerRole :=
  (Sysknife.minRoleForAction specMeta actionName).map fun baseline =>
    (policy.overrides.lookup actionName).getD baseline

/-- May a caller of this role invoke the action? Unknown actions are refused. -/
def actionAllowed (caller : CallerRole) (actionName : String) : Bool :=
  match policy.minRoleForAction actionName with
  | some required => required ≤ caller
  | none => false

theorem actionAllowed_iff {caller : CallerRole} {actionName : String} :
    policy.actionAllowed caller actionName = true ↔
      ∃ required, policy.minRoleForAction actionName = some required ∧ required ≤ caller := by
  unfold actionAllowed
  split <;> simp_all

/-- The effective role is never below the compile-time baseline. -/
theorem baseline_le {actionName : String} {required baseline : CallerRole}
    (h : policy.minRoleForAction actionName = some required)
    (hbase : Sysknife.minRoleForAction specMeta actionName = some baseline) :
    baseline ≤ required := by
  rw [minRoleForAction, hbase, Option.map_some, Option.some.injEq] at h
  subst h
  cases hlookup : policy.overrides.lookup actionName with
  | none => exact le_rfl
  | some role =>
    obtain ⟨pre, post, hsplit, -⟩ := List.lookup_eq_some_iff.mp hlookup
    exact policy.raises (actionName, role) (by rw [hsplit]; simp) baseline hbase

end PolicyTable

end Sysknife
