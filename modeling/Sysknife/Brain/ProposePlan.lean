import Sysknife.Actions.Validate
import Sysknife.Brain.Prefs
import Sysknife.Brain.Provider

/-!
# The plan a model proposes

`parse_proposed_plan` turns the input of a `propose_plan` call into a plan or a reason to reject
it. What the model wrote for the operator to read is normalised on the way, which stops the
program where an escape sequence ends within a character (`Stop.panic`).

* `sound_of_parseProposedPlan`: a plan has a step, and each step is of a known action, has an
  object for its parameters and takes no credential.
* `stands_parseProposedPlan`: which texts have to be whole for the parser to return.
-/

namespace Sysknife.Brain

open Slices

/-! ### Plans -/

/-- The names of all actions, from which `ActionName` is parsed. -/
def knownActionNames : List String :=
  ["GetSystemState", "CollectDiagnostics", "GetDeploymentHistory", "ListDeployments",
    "UpdateSystem", "CleanupDeployments", "RebootSystem", "RollbackDeployment",
    "GetKernelArguments", "PinDeployment", "UnpinDeployment", "RebaseSystem", "SetKernelArguments",
    "InstallFlatpak", "RemoveFlatpak", "UpdateFlatpak", "SearchFlatpakApps", "ListFlatpakRemotes",
    "ListInstalledFlatpaks", "AddFlatpakRemote", "RemoveFlatpakRemote", "GetFlatpakAppInfo",
    "ListToolboxes", "CreateToolbox", "RemoveToolbox", "GetLayeredPackages",
    "ResetLayeredPackageOverride", "GetPendingUpdates", "InstallPackages", "RemovePackages",
    "AddLayeredPackage", "RemoveLayeredPackage", "ReplaceLayeredPackage", "RemoveBasePackage",
    "ListServices", "ListTimers", "ReloadDaemon", "CreateScheduledJob", "StartService",
    "StopService", "RestartService", "ReloadService", "SetServiceEnabled", "MaskService",
    "UnmaskService", "GetServiceLogs", "GetServiceStatus", "GetServiceResourceLimits",
    "SetServiceResourceLimits", "GetFirewallState", "GetNetworkStatus", "GetListeningPorts",
    "GetNftablesRuleset", "GetFirewallBackendState", "ConfigureWifi", "SetDnsServers",
    "ConfigureFirewall", "GetDiskUsage", "ListProcesses", "SignalProcess", "GetMemoryInfo",
    "GetHostState", "GetJournalLog", "VacuumJournal", "GetLvmReport", "ExtendLogicalVolume",
    "CreateLogicalVolume", "CreateLvSnapshot", "GetSysctl", "SetSysctl", "GetMounts", "AddMount",
    "RemoveMount", "AddSwap", "RemoveSwap", "GetSudoGrants", "GrantSudoAccess", "RevokeSudoAccess",
    "GetLogrotateStatus", "ConfigureLogRotation", "RemoveLogRotation", "ConfigureRemoteSyslog",
    "RemoveRemoteSyslog", "GetPasswordAging", "SetPasswordAging", "SetPasswordPolicy",
    "SetAccountLockout", "GetAuditRules", "AddAuditRule", "RemoveAuditRule", "GetCertificates",
    "ObtainCertificate", "RenewCertificates", "GetDateTime", "SetHostname", "SetTimezone",
    "SetLocale", "SetNtp", "ListPackageRepositories", "AddPackageRepository",
    "RemovePackageRepository", "EnablePackageRepository", "DisablePackageRepository",
    "ListContainers", "CreateContainer", "StartContainer", "StopContainer", "RemoveContainer",
    "GetContainerInfo", "ListUsers", "ListGroups", "CreateUser", "DeleteUser", "AddUserToGroup",
    "RemoveUserFromGroup", "CreateGroup", "DeleteGroup", "LockUserAccount", "UnlockUserAccount",
    "GetAuthorizedKeys", "AddAuthorizedKey", "RemoveAuthorizedKey", "SetSshdOption",
    "ListJobHistory", "AptUpdate", "AptUpgrade", "AptInstall", "AptRemove", "AptPurge",
    "AptAutoremove", "AptHold", "AptUnhold", "AptSearch", "AptListInstalled", "AptShow",
    "AptListUpgradable", "AptHistoryList", "ConfigureUnattendedUpgrades", "GetAptPins", "SetAptPin",
    "RemoveAptPin", "AddPpa", "RemovePpa", "SnapInstall", "SnapRemove", "SnapRefresh", "SnapHold",
    "SnapUnhold", "SnapList", "SnapInfo", "SnapRevert", "SnapClassicInstall", "UfwEnable",
    "UfwDisable", "UfwAllow", "UfwDeny", "UfwReset", "UfwStatus", "DistroboxList",
    "DistroboxCreate", "DistroboxRemove", "NetplanGetConfig", "NetplanApply", "NetplanSet",
    "NetplanGenerate", "GrubGetKargs", "GrubSetKargs", "CheckPendingReboot", "ResolvectlStatus",
    "ResolvectlSetDns", "AppArmorStatus", "AppArmorEnforce", "AppArmorComplain", "CloudInitStatus",
    "UbuntuInstallFlatpak", "UbuntuRemoveFlatpak", "UbuntuUpdateFlatpak", "UbuntuListFlatpaks",
    "Fail2banStatus", "Fail2banBanIp", "Fail2banUnbanIp", "ConfigureFail2banJail",
    "UbuntuReleaseUpgrade", "ProStatus", "ProAttach", "ProDetach", "EnableProService",
    "DisableProService", "LivepatchStatus", "MultipassList", "UfwDeleteRule", "UfwLimit"]

/-- The actions that are described to the model. -/
def knownActions : List String :=
  ["GetSystemState", "GetHostState", "CollectDiagnostics", "GetDeploymentHistory",
    "ListDeployments", "UpdateSystem", "CleanupDeployments", "RebootSystem", "RollbackDeployment",
    "GetKernelArguments", "PinDeployment", "UnpinDeployment", "RebaseSystem", "SetKernelArguments",
    "InstallFlatpak", "RemoveFlatpak", "UpdateFlatpak", "SearchFlatpakApps", "ListFlatpakRemotes",
    "ListInstalledFlatpaks", "AddFlatpakRemote", "RemoveFlatpakRemote", "GetFlatpakAppInfo",
    "ListToolboxes", "CreateToolbox", "RemoveToolbox", "GetLayeredPackages",
    "ResetLayeredPackageOverride", "GetPendingUpdates", "InstallPackages", "RemovePackages",
    "AddLayeredPackage", "RemoveLayeredPackage", "ReplaceLayeredPackage", "RemoveBasePackage",
    "ListServices", "ListTimers", "ReloadDaemon", "CreateScheduledJob", "StartService",
    "StopService", "RestartService", "ReloadService", "SetServiceEnabled", "MaskService",
    "UnmaskService", "GetServiceLogs", "GetServiceStatus", "GetServiceResourceLimits",
    "SetServiceResourceLimits", "GetFirewallState", "GetNetworkStatus", "GetListeningPorts",
    "GetNftablesRuleset", "GetFirewallBackendState", "ConfigureWifi", "SetDnsServers",
    "ConfigureFirewall", "GetDiskUsage", "ListProcesses", "SignalProcess", "GetMemoryInfo",
    "GetJournalLog", "VacuumJournal", "GetLvmReport", "ExtendLogicalVolume", "CreateLogicalVolume",
    "CreateLvSnapshot", "GetSysctl", "SetSysctl", "GetMounts", "AddMount", "RemoveMount", "AddSwap",
    "RemoveSwap", "GetAptPins", "SetAptPin", "RemoveAptPin", "GetSudoGrants", "GrantSudoAccess",
    "RevokeSudoAccess", "GetLogrotateStatus", "ConfigureLogRotation", "RemoveLogRotation",
    "ConfigureRemoteSyslog", "RemoveRemoteSyslog", "GetPasswordAging", "SetPasswordAging",
    "SetPasswordPolicy", "SetAccountLockout", "GetDateTime", "SetHostname", "SetTimezone",
    "SetLocale", "SetNtp", "ListPackageRepositories", "AddPackageRepository",
    "RemovePackageRepository", "EnablePackageRepository", "DisablePackageRepository",
    "ListContainers", "CreateContainer", "StartContainer", "StopContainer", "RemoveContainer",
    "GetContainerInfo", "ListUsers", "ListGroups", "CreateUser", "DeleteUser", "AddUserToGroup",
    "RemoveUserFromGroup", "CreateGroup", "DeleteGroup", "LockUserAccount", "UnlockUserAccount",
    "GetAuthorizedKeys", "AddAuthorizedKey", "RemoveAuthorizedKey", "SetSshdOption",
    "ListJobHistory", "AptUpdate", "AptUpgrade", "AptInstall", "AptRemove", "AptPurge",
    "AptAutoremove", "AptHold", "AptUnhold", "AptSearch", "AptListInstalled", "AptShow",
    "AptListUpgradable", "AptHistoryList", "ConfigureUnattendedUpgrades", "AddPpa", "RemovePpa",
    "SnapInstall", "SnapRemove", "SnapRefresh", "SnapHold", "SnapUnhold", "SnapList", "SnapInfo",
    "SnapRevert", "SnapClassicInstall", "UfwEnable", "UfwDisable", "UfwAllow", "UfwDeny",
    "UfwReset", "UfwStatus", "DistroboxList", "DistroboxCreate", "DistroboxRemove",
    "NetplanGetConfig", "NetplanApply", "GrubGetKargs", "GrubSetKargs", "CheckPendingReboot",
    "ResolvectlStatus", "ResolvectlSetDns", "AppArmorStatus", "AppArmorEnforce", "AppArmorComplain",
    "CloudInitStatus", "UbuntuInstallFlatpak", "UbuntuRemoveFlatpak", "UbuntuUpdateFlatpak",
    "UbuntuListFlatpaks", "Fail2banStatus", "Fail2banBanIp", "Fail2banUnbanIp",
    "ConfigureFail2banJail", "GetAuditRules", "AddAuditRule", "RemoveAuditRule", "GetCertificates",
    "ObtainCertificate", "RenewCertificates", "NetplanSet", "NetplanGenerate", "UfwDeleteRule",
    "UfwLimit", "UbuntuReleaseUpgrade", "ProStatus", "ProAttach", "ProDetach", "EnableProService",
    "DisableProService", "LivepatchStatus", "MultipassList"]

/-- A name that is known. -/
structure ActionName where
  name : String
  known : name ∈ knownActionNames

def ActionName.parse (name : String) : Except String ActionName :=
  if h : name ∈ knownActionNames then .ok ⟨name, h⟩ else .error name

abbrev PlanRiskLevel := RiskLevel

/-- A single action within a plan. -/
structure PlanStep where
  actionName : ActionName
  summary : String
  riskLevel : PlanRiskLevel
  params : Value
  summary_ne : summary ≠ ""

structure Plan where
  intent : String
  summary : String
  explanation : String
  steps : List PlanStep
  /-- Changes the model asked for, unwritten. -/
  prefChanges : List PendingPrefChange
  intent_ne : intent ≠ ""
  summary_ne : summary ≠ ""
  explanation_ne : explanation ≠ ""
  steps_ne : steps ≠ []

def Plan.withPrefChanges (plan : Plan) (changes : List PendingPrefChange) : Plan :=
  { plan with prefChanges := changes }

inductive PlanningError
  | emptyIntent
  | intentTooLong (len max : ℕ)
  | intentContainsSensitiveData
  | rateLimitExceeded (retryAfterSecs : ℕ)
  | stateUnavailable (message : String)
  | plannerStuck
  | noPlanProposed
  | refused (reason : String) (suggestion : Option String)
  | provider (e : ProviderError)
  | invalidPlanOutput (message : String)
  deriving DecidableEq, Repr

/-- The error as it is shown. -/
def PlanningError.message : PlanningError → String
  | .emptyIntent => "intent must not be empty"
  | .intentTooLong len max => "intent exceeds maximum length of " ++ toString max ++
      " bytes (got " ++ toString len ++ "); shorten the request or split it into multiple commands"
  | .intentContainsSensitiveData => "intent contains sensitive data (API keys, passwords, or " ++
      "tokens must not be forwarded to LLM providers)"
  | .rateLimitExceeded secs => "rate limit exceeded; too many planning requests in the last 60 " ++
      "seconds (retry after " ++ toString secs ++ "s)"
  | .stateUnavailable m => "state unavailable: " ++ m
  | .plannerStuck => "planner did not propose a plan within the allowed turns"
  | .noPlanProposed => "planner ended without proposing a plan"
  | .refused reason _ => reason
  | .provider e => "provider error: " ++ e.message
  | .invalidPlanOutput m => "invalid plan output: " ++ m

/-- Why there is no result: the program stopped, or it says why. -/
inductive Stop (ε : Type)
  | panic (p : Panic)
  | error (e : ε)
  deriving DecidableEq, Repr

def PlanStep.new (actionName : ActionName) (summary : String) (riskLevel : PlanRiskLevel)
    (params : Value) : Except PlanningError PlanStep :=
  if h : summary = "" then .error (.invalidPlanOutput "PlanStep summary must not be empty")
  else .ok { actionName, summary, riskLevel, params, summary_ne := h }

def Plan.new (intent summary explanation : String) (steps : List PlanStep) :
    Except PlanningError Plan :=
  if hintent : intent = "" then .error (.invalidPlanOutput "Plan intent must not be empty")
  else if hsummary : summary = "" then
    .error (.invalidPlanOutput "Plan summary must not be empty")
  else if hexplanation : explanation = "" then
    .error (.invalidPlanOutput "Plan explanation must not be empty")
  else if hsteps : steps = [] then
    .error (.invalidPlanOutput "Plan must have at least one step")
  else
    .ok { intent, summary, explanation, steps, prefChanges := [], intent_ne := hintent,
          summary_ne := hsummary, explanation_ne := hexplanation, steps_ne := hsteps }

/-! ### The parser -/

/-- What is not modelled here: Unicode's normal form and its classes `\p{L}` and `\p{N}`, the JSON
parser, and how a text is quoted (`{:?}`). -/
structure Library where
  nfc : List Char → List Char
  letter : Char → Bool
  number : Char → Bool
  fromStr : String → Except String Value
  debug : String → String

/-- `CREDENTIAL_ACTIONS_WITHOUT_ENTRY` -/
def credentialActionsWithoutEntry : List String := ["ProAttach"]

/-- `CREDENTIAL_PARAMS_WITHOUT_ENTRY` -/
def credentialParamsWithoutEntry : List (String × String) := [("ConfigureWifi", "password")]

def requiresUnavailableCredentialEntry (action : String) : Bool :=
  credentialActionsWithoutEntry.contains action

def forbiddenCredentialParam (action : String) (params : Value) : Option String :=
  (credentialParamsWithoutEntry.find? fun p =>
    p.1 == action && (params.get p.2).isSome).map Prod.snd

/-- `Value::is_object` -/
def isObject : Value → Bool
  | .obj _ => true
  | _ => false

/-- A nonempty text of the input. -/
def requireText (input : Value) (key missing : String) : Except PlanningError String :=
  match ((input.get key).bind Value.asStr).filter (· ≠ "") with
  | some s => .ok s
  | none => .error (.invalidPlanOutput missing)

section Parser

variable (lib : Library)

/-- `normalise_operator_text` -/
def normaliseOperatorText (raw : String) : Except Panic String :=
  (normaliseFreeText lib.nfc raw.toList).map String.ofList

/-- A step before its summary is normalised. -/
structure StepDraft where
  actionName : ActionName
  summary : String
  riskLevel : PlanRiskLevel
  params : Value

/-- The parameters of a step, written as an object or as the text of one. -/
def readParams (i : ℕ) (step : Value) : Except PlanningError Value :=
  match step.get "params" with
  | some (.str s) =>
    if s = "" then .ok (.obj [])
    else
      match lib.fromStr s with
      | .ok params => .ok params
      | .error _ => .error (.invalidPlanOutput
          ("step " ++ toString i ++ ": 'params' is not valid JSON: " ++ lib.debug s))
  | some params => .ok params
  | none => .ok (.obj [])

def readRisk (i : ℕ) (step : Value) : Except PlanningError PlanRiskLevel :=
  match (step.get "risk_level").bind Value.asStr with
  | none => .error (.invalidPlanOutput ("step " ++ toString i ++ ": missing 'risk_level'"))
  | some "low" => .ok .low
  | some "medium" => .ok .medium
  | some "high" => .ok .high
  | some other =>
    .error (.invalidPlanOutput ("step " ++ toString i ++ ": invalid risk_level '" ++ other ++ "'"))

/-- The checks of one step. -/
def readStep (i : ℕ) (step : Value) : Except PlanningError StepDraft := do
  let name ← requireText step "action_name" ("step " ++ toString i ++ ": missing 'action_name'")
  if requiresUnavailableCredentialEntry name then
    .error (.invalidPlanOutput ("step " ++ toString i ++ ": action '" ++ name ++
      "' requires credential entry unavailable to the planner"))
  else
    match ActionName.parse name with
    | .error _ => .error (.invalidPlanOutput
        ("step " ++ toString i ++ ": unknown action_name '" ++ name ++ "'"))
    | .ok actionName => do
      let summary ← requireText step "summary" ("step " ++ toString i ++ ": missing 'summary'")
      let riskLevel ← readRisk i step
      let params ← readParams lib i step
      if !isObject params then
        .error (.invalidPlanOutput ("step " ++ toString i ++ ": 'params' must be an object"))
      else
        match forbiddenCredentialParam name params with
        | some param => .error (.invalidPlanOutput ("step " ++ toString i ++ ": '" ++ name ++
            "' param '" ++ param ++
            "' is a credential, and the planner has no entry channel for one"))
        | none => .ok { actionName, summary, riskLevel, params }

def orError {ε α : Type} : Except ε α → Except (Stop ε) α
  | .ok a => .ok a
  | .error e => .error (.error e)

def orStop {ε α : Type} : Except Panic α → Except (Stop ε) α
  | .ok a => .ok a
  | .error p => .error (.panic p)

/-- One step, with its summary normalised. -/
def parseStep (i : ℕ) (step : Value) : Except (Stop PlanningError) PlanStep := do
  let draft ← orError (readStep lib i step)
  let summary ← orStop (normaliseOperatorText lib draft.summary)
  orError (PlanStep.new draft.actionName summary draft.riskLevel draft.params)

def parseSteps : ℕ → List Value → Except (Stop PlanningError) (List PlanStep)
  | _, [] => .ok []
  | i, step :: steps => do
    let first ← parseStep lib i step
    let rest ← parseSteps (i + 1) steps
    return first :: rest

/-- The texts of a plan and its steps, as the model wrote them. -/
def readPlan (input : Value) : Except PlanningError (String × String × List Value) := do
  let summary ← requireText input "summary" "missing or empty 'summary'"
  let explanation ← requireText input "explanation" "missing or empty 'explanation'"
  match (input.get "steps").bind Value.asArray with
  | none => .error (.invalidPlanOutput "'steps' must be an array")
  | some [] => .error (.invalidPlanOutput "'steps' must not be empty")
  | some steps => .ok (summary, explanation, steps)

def parseProposedPlan (intent : String) (input : Value) :
    Except (Stop PlanningError) Plan := do
  let (summary, explanation, values) ← orError (readPlan input)
  let steps ← parseSteps lib 0 values
  let summary ← orStop (normaliseOperatorText lib summary)
  let explanation ← orStop (normaliseOperatorText lib explanation)
  orError (Plan.new intent summary explanation steps)

/-- A parsed refusal. -/
structure Refusal where
  reason : String
  suggestion : Option String

/-- The texts of a refusal, as the model wrote them. -/
def readRefusal (input : Value) : Except String (String × Option String) :=
  let reason := (((input.get "reason").bind Value.asStr).map trim).getD ""
  let suggestion := (((input.get "suggestion").bind Value.asStr).map trim).filter (· ≠ "")
  if reason = "" then
    .error "'reason' is required and must not be empty: a refusal has to say why"
  else .ok (reason, suggestion)

def parseRefusal (input : Value) : Except (Stop String) Refusal := do
  let (reason, suggestion) ← orError (readRefusal input)
  let reason ← orStop (normaliseOperatorText lib reason)
  match suggestion with
  | none => return { reason, suggestion := none }
  | some s =>
    let s ← orStop (normaliseOperatorText lib s)
    return { reason, suggestion := some s }

end Parser

/-! ### What a plan may hold -/

theorem mem_knownActions : ∀ name ∈ knownActionNames, name ∈ knownActions := by decide +kernel

/-- What a step may do: a known action that needs no credential, with an object for its
parameters and no password for a network in it. -/
structure Permitted (action : String) (params : Value) : Prop where
  known : action ∈ knownActions
  entry : action ≠ "ProAttach"
  object : isObject params = true
  password (h : action = "ConfigureWifi") : params.get "password" = none

section Sound

variable {lib : Library} {i : ℕ} {ε α : Type}

theorem orError_eq_ok {x : Except ε α} {a : α} : orError x = .ok a ↔ x = .ok a := by
  cases x <;> simp [orError]

/-- No member of an object is forbidden if none is found. -/
theorem get_password_of_forbidden {params : Value}
    (h : forbiddenCredentialParam "ConfigureWifi" params = none) :
    params.get "password" = none := by
  cases hpassword : params.get "password" with
  | none => rfl
  | some v => simp [forbiddenCredentialParam, credentialParamsWithoutEntry, hpassword] at h

theorem permitted_of_readStep {step : Value} {draft : StepDraft}
    (h : readStep lib i step = .ok draft) : Permitted draft.actionName.name draft.params := by
  obtain ⟨name, -, h⟩ := exists_of_bind_eq_ok h
  split_ifs at h with hentry
  cases hparse : ActionName.parse name with
  | error e => simp [hparse] at h
  | ok actionName =>
    rw [hparse] at h
    obtain ⟨summary, -, h⟩ := exists_of_bind_eq_ok h
    obtain ⟨riskLevel, -, h⟩ := exists_of_bind_eq_ok h
    obtain ⟨params, -, h⟩ := exists_of_bind_eq_ok h
    split_ifs at h with hobject
    cases hforbidden : forbiddenCredentialParam name params with
    | some param => simp [hforbidden] at h
    | none =>
      simp only [hforbidden] at h
      obtain rfl := Except.ok.inj h
      have hname : actionName.name = name := by
        rw [ActionName.parse] at hparse
        split_ifs at hparse
        obtain rfl := Except.ok.inj hparse
        rfl
      refine ⟨mem_knownActions _ actionName.known, ?_, by simpa using hobject, ?_⟩
      · show actionName.name ≠ "ProAttach"
        rintro hattach
        rw [hname] at hattach
        subst hattach
        exact hentry (by decide)
      · show actionName.name = "ConfigureWifi" → params.get "password" = none
        rintro hwifi
        rw [hname] at hwifi
        subst hwifi
        exact get_password_of_forbidden hforbidden

theorem parseStep_eq_ok {step : Value} {parsed : PlanStep} (h : parseStep lib i step = .ok parsed) :
    ∃ draft, readStep lib i step = .ok draft ∧ parsed.actionName = draft.actionName ∧
      parsed.params = draft.params := by
  obtain ⟨draft, hdraft, h⟩ := exists_of_bind_eq_ok h
  obtain ⟨summary, -, h⟩ := exists_of_bind_eq_ok h
  rw [orError_eq_ok, PlanStep.new] at h
  split_ifs at h
  obtain rfl := Except.ok.inj h
  exact ⟨draft, orError_eq_ok.mp hdraft, rfl, rfl⟩

theorem permitted_of_parseSteps {values : List Value} {steps : List PlanStep}
    (h : parseSteps lib i values = .ok steps) :
    ∀ step ∈ steps, Permitted step.actionName.name step.params := by
  induction values generalizing i steps with
  | nil =>
    obtain rfl := Except.ok.inj h
    exact fun step hstep => absurd hstep List.not_mem_nil
  | cons value values ih =>
    obtain ⟨first, hfirst, h⟩ := exists_of_bind_eq_ok h
    obtain ⟨rest, hrest, h⟩ := exists_of_bind_eq_ok h
    obtain rfl := Except.ok.inj h
    obtain ⟨draft, hdraft, haction, hparams⟩ := parseStep_eq_ok hfirst
    refine List.forall_mem_cons.mpr ⟨?_, ih hrest⟩
    rw [haction, hparams]
    exact permitted_of_readStep hdraft

/-- A plan is for the intent it was asked for, it changes no preferences by itself, and each of
its steps is permitted. -/
theorem sound_of_parseProposedPlan {intent : String} {input : Value} {plan : Plan}
    (h : parseProposedPlan lib intent input = .ok plan) :
    plan.intent = intent ∧ plan.prefChanges = [] ∧
      ∀ step ∈ plan.steps, Permitted step.actionName.name step.params := by
  obtain ⟨⟨summary, explanation, values⟩, -, h⟩ := exists_of_bind_eq_ok h
  obtain ⟨steps, hsteps, h⟩ := exists_of_bind_eq_ok h
  obtain ⟨summary, -, h⟩ := exists_of_bind_eq_ok h
  obtain ⟨explanation, -, h⟩ := exists_of_bind_eq_ok h
  rw [orError_eq_ok, Plan.new] at h
  split_ifs at h
  obtain rfl := Except.ok.inj h
  exact ⟨rfl, rfl, permitted_of_parseSteps hsteps⟩

end Sound

/-! ### When the parser returns -/

/-- The computation ends without stopping the program. -/
def Stands {ε α : Type} (x : Except (Stop ε) α) : Prop := ∀ p, x ≠ .error (.panic p)

section Stands

variable {lib : Library} {i : ℕ} {ε α β : Type}

theorem stands_ok (a : α) : Stands (.ok a : Except (Stop ε) α) := fun _ h => by cases h

theorem stands_orError (x : Except ε α) : Stands (orError x) := by
  intro p h
  cases x <;> cases h

theorem stands_orStop {x : Except Panic α} :
    Stands (orStop x : Except (Stop ε) α) ↔ ∃ a, x = .ok a := by
  cases x with
  | ok a => exact ⟨fun _ => ⟨a, rfl⟩, fun _ => stands_ok a⟩
  | error p =>
    constructor
    · exact fun h => absurd rfl (h p)
    · rintro ⟨a, ha⟩
      cases ha

/-- One computation behind another. -/
theorem stands_bind {x : Except (Stop ε) α} {f : α → Except (Stop ε) β} :
    Stands (x >>= f) ↔ Stands x ∧ ∀ a, x = .ok a → Stands (f a) := by
  cases x with
  | ok a =>
    constructor
    · intro h
      refine ⟨stands_ok a, fun b hb => ?_⟩
      obtain rfl := Except.ok.inj hb
      exact h
    · exact fun h => h.2 a rfl
  | error e =>
    have hstop : Stands (Except.error e >>= f) ↔ Stands (Except.error e : Except (Stop ε) α) := by
      refine forall_congr' fun p => not_congr ?_
      constructor <;> (rintro ⟨⟩; rfl)
    rw [hstop]
    exact ⟨fun h => ⟨h, fun a ha => by cases ha⟩, fun h => h.1⟩

theorem exists_normaliseOperatorText_iff {raw : String} :
    (∃ text, normaliseOperatorText lib raw = .ok text) ↔ WholeEscapes raw.toList := by
  rw [← exists_normalised_iff lib.nfc raw.toList maxOutputBytes, normaliseOperatorText,
    normaliseFreeText]
  cases normaliseFreeTextCapped lib.nfc raw.toList maxOutputBytes <;> simp [Except.map]

/-- A text is normalised, and whether the rest returns does not depend on what that gives. -/
theorem stands_normalise {raw : String} {P : Prop} {f : String → Except (Stop ε) β}
    (hf : ∀ text, Stands (f text) ↔ P) :
    Stands (orStop (normaliseOperatorText lib raw) >>= f) ↔ WholeEscapes raw.toList ∧ P := by
  rw [stands_bind, stands_orStop, exists_normaliseOperatorText_iff]
  refine and_congr_right fun hraw => ?_
  obtain ⟨text, htext⟩ := exists_normaliseOperatorText_iff.mpr hraw
  constructor
  · exact fun h => (hf text).mp (h text (by rw [htext]; rfl))
  · exact fun hP other _ => (hf other).mpr hP

theorem stands_parseStep {step : Value} : Stands (parseStep lib i step) ↔
    ∀ draft, readStep lib i step = .ok draft → WholeEscapes draft.summary.toList := by
  rw [parseStep, stands_bind, and_iff_right (stands_orError _)]
  refine forall_congr' fun draft => ?_
  rw [orError_eq_ok, stands_normalise fun _ => iff_true_intro (stands_orError _), and_true]

variable (lib) in
/-- Every summary is whole that is read before a step is rejected. -/
def StepsWhole : ℕ → List Value → Prop
  | _, [] => True
  | i, step :: steps =>
    (∀ draft, readStep lib i step = .ok draft → WholeEscapes draft.summary.toList) ∧
      ∀ parsed, parseStep lib i step = .ok parsed → StepsWhole (i + 1) steps

theorem stands_parseSteps {values : List Value} :
    Stands (parseSteps lib i values) ↔ StepsWhole lib i values := by
  induction values generalizing i with
  | nil => exact iff_of_true (stands_ok []) trivial
  | cons value values ih =>
    rw [parseSteps, stands_bind, stands_parseStep, StepsWhole]
    refine and_congr_right fun _ => forall_congr' fun parsed => imp_congr_right fun _ => ?_
    rw [stands_bind, ih]
    exact and_iff_left fun rest _ => stands_ok _

variable (lib) in
/-- The texts of a plan are whole, as far as it is read. -/
def PlanWhole (input : Value) : Prop :=
  ∀ summary explanation values, readPlan input = .ok (summary, explanation, values) →
    StepsWhole lib 0 values ∧ ∀ steps, parseSteps lib 0 values = .ok steps →
      WholeEscapes summary.toList ∧ WholeEscapes explanation.toList

theorem stands_parseProposedPlan {intent : String} {input : Value} :
    Stands (parseProposedPlan lib intent input) ↔ PlanWhole lib input := by
  rw [parseProposedPlan, stands_bind, and_iff_right (stands_orError _), PlanWhole]
  simp only [Prod.forall, orError_eq_ok]
  refine forall_congr' fun summary => forall_congr' fun explanation => forall_congr' fun values =>
    imp_congr_right fun _ => ?_
  rw [stands_bind, stands_parseSteps]
  refine and_congr_right fun _ => forall_congr' fun steps => imp_congr_right fun _ => ?_
  refine stands_normalise fun _ => ?_
  rw [stands_normalise fun _ => iff_true_intro (stands_orError _), and_true]

/-- The texts of a refusal are whole. -/
def RefusalWhole (input : Value) : Prop :=
  ∀ reason suggestion, readRefusal input = .ok (reason, suggestion) →
    WholeEscapes reason.toList ∧ ∀ s ∈ suggestion, WholeEscapes s.toList

theorem stands_parseRefusal {input : Value} :
    Stands (parseRefusal lib input) ↔ RefusalWhole input := by
  rw [parseRefusal, stands_bind, and_iff_right (stands_orError _), RefusalWhole]
  simp only [Prod.forall, orError_eq_ok]
  refine forall_congr' fun reason => forall_congr' fun suggestion => imp_congr_right fun _ => ?_
  refine stands_normalise fun _ => ?_
  cases suggestion with
  | none => exact iff_of_true (stands_ok _) fun s hs => by cases hs
  | some s =>
    have hsuggestion : (∀ t ∈ some s, WholeEscapes t.toList) ↔ WholeEscapes s.toList ∧ True := by
      simp
    rw [hsuggestion]
    exact stands_normalise fun _ => iff_true_intro (stands_ok _)

end Stands

end Sysknife.Brain
