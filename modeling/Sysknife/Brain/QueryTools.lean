import Sysknife.Actions.Catalogue

/-!
# Query tools

The tools a model may call to look at the host before it proposes a plan. Each is mapped to an
action of the daemon's catalogue, with parameters taken from the model's input
(`queryToolToAction`). A tool is of use only if the daemon runs the action it is mapped to
(`Runnable`): every tool is, once the daemon's validators accept what it forwards, except for
those whose action reads as an account and which forward none (`query_tools_runnable`).
-/

namespace Sysknife.Brain

/-- A nonempty text of the model's input. -/
def requireStrParam (input : Value) (key toolName : String) : Except String String :=
  match ((input.get key).bind Value.asStr).filter (· ≠ "") with
  | some s => .ok s
  | none => .error (toolName ++ " requires '" ++ key ++ "' param")

/-- The tool forwards one text of its input, under the same name. -/
def forwardStr (input : Value) (key toolName action : String) :
    Except String (Option (String × Value)) := do
  let s ← requireStrParam input key toolName
  .ok (some (action, .obj [(key, .str s)]))

/-- A member of the input, passed on as it is. -/
def forwarded (input : Value) (key : String) : List (String × Value) :=
  ((input.get key).map fun v => (key, v)).toList

/-- The action a query tool stands for, with its parameters. No action: not a query tool. -/
def queryToolToAction (toolName : String) (input : Value) :
    Except String (Option (String × Value)) :=
  match toolName with
  | "query_ufw_rules" => .ok (some ("UfwStatus", .obj [("numbered", .bool true)]))
  | "query_services" => .ok (some ("ListServices", .obj []))
  | "query_firewall" => .ok (some ("GetFirewallBackendState", .obj []))
  | "query_deployments" => .ok (some ("ListDeployments", .obj []))
  | "query_packages" => .ok (some ("GetLayeredPackages", .obj []))
  | "query_containers" => .ok (some ("ListContainers", .obj []))
  | "query_users" => .ok (some ("ListUsers", .obj []))
  | "query_logs" => forwardStr input "unit" toolName "GetServiceLogs"
  | "query_kernel_args" => .ok (some ("GetKernelArguments", .obj []))
  | "query_flatpak_remotes" => .ok (some ("ListFlatpakRemotes", .obj []))
  | "query_toolboxes" => .ok (some ("ListToolboxes", .obj []))
  | "query_groups" => .ok (some ("ListGroups", .obj []))
  | "query_flatpak_info" => forwardStr input "app_id" toolName "GetFlatpakAppInfo"
  | "query_container_info" => forwardStr input "name" toolName "GetContainerInfo"
  | "query_package_repos" => .ok (some ("ListPackageRepositories", .obj []))
  | "query_diagnostics" => .ok (some ("CollectDiagnostics", .obj []))
  | "query_deployment_history" => .ok (some ("GetDeploymentHistory", .obj []))
  | "query_disk_usage" => .ok (some ("GetDiskUsage", .obj []))
  | "query_processes" => .ok (some ("ListProcesses", .obj []))
  | "query_memory" => .ok (some ("GetMemoryInfo", .obj []))
  | "query_network" => .ok (some ("GetNetworkStatus", .obj []))
  | "query_authorized_keys" => forwardStr input "username" toolName "GetAuthorizedKeys"
  | "query_job_history" =>
    .ok (some ("ListJobHistory", .obj (forwarded input "limit" ++ forwarded input "status_filter" ++
      forwarded input "action_filter" ++ forwarded input "since_hours")))
  | _ => .ok none

/-! ### What the daemon makes of them -/

/-- The daemon's validator for a text parameter. -/
def operandOk : String → String → Bool
  | "unit" => unitNameOk
  | "app_id" | "name" => safeArgOk
  | "username" => usernameOk
  | _ => fun _ => true

/-- Every forwarded text passes its validator. -/
def OperandsValid (params : Value) : Prop :=
  ∀ key s, params.get key = some (.str s) → operandOk key s = true

/-- The daemon gets as far as running the action. The history of jobs is answered from the
daemon's own store, once its parameters are accepted. -/
def Runnable (c : Catalogue) (action : String) (params : Value) : Prop :=
  (∃ spec, c.buildActionSpec action params = .ok spec) ∨
    (action = "ListJobHistory" ∧ c.validateActionParams action params = .ok ())

/-- The tools whose action reads as an account and which name none. -/
def accountTools : List String :=
  ["query_containers", "query_flatpak_remotes", "query_toolboxes", "query_flatpak_info",
    "query_container_info"]

theorem forwardStr_eq_ok {input params : Value} {key toolName action action' : String}
    (h : forwardStr input key toolName action = .ok (some (action', params))) :
    action' = action ∧ ∃ s, params = .obj [(key, .str s)] := by
  unfold forwardStr at h
  cases hparam : requireStrParam input key toolName with
  | error e => simp [hparam, bind, Except.bind] at h
  | ok s =>
    rw [hparam] at h
    obtain ⟨rfl, rfl⟩ := Prod.mk.inj (Option.some.inj (Except.ok.inj h))
    exact ⟨rfl, s, rfl⟩

/-- What is forwarded is under the tool's own names. -/
theorem forwarded_names {input : Value} {key : String} {member : String × Value}
    (h : member ∈ forwarded input key) : member.1 = key := by
  unfold forwarded at h
  cases hget : input.get key with
  | none => simp [hget] at h
  | some v =>
    obtain rfl : member = (key, v) := by simpa [hget] using h
    rfl

theorem validateKnownParams_of_subset {allowed : List String} {members : List (String × Value)}
    (h : ∀ member ∈ members, member.1 ∈ allowed) :
    validateKnownParams allowed (.obj members) = .ok () := by
  have hnone : (members.any fun m => !allowed.contains m.1) = false := by
    refine List.any_eq_false.mpr fun member hmem => ?_
    simpa using h member hmem
  simp only [validateKnownParams, Value.asObject, orInvalid, bind, Except.bind, hnone]
  rfl

/-! ### Which tools the daemon can answer -/

/-- Checking the name and the parameters first changes nothing when they are in order. -/
theorem buildActionSpec_of_known {c : Catalogue} {action : String} {allowed : List String}
    {members : List (String × Value)} (hallowed : c.allowedParams action = some allowed)
    (hknown : ∀ member ∈ members, member.1 ∈ allowed) :
    c.buildActionSpec action (.obj members) = c.buildArm (.obj members) action := by
  have hvalid : c.validateActionParams action (.obj members) = .ok () := by
    rw [Catalogue.validateActionParams, hallowed]
    exact validateKnownParams_of_subset hknown
  rw [Catalogue.buildActionSpec, hvalid]
  rfl

theorem not_runnable_of_error {c : Catalogue} {action : String} {params : Value}
    {e : ExecutorError} (h : c.buildActionSpec action params = .error e)
    (hjobs : action ≠ "ListJobHistory") : ¬ Runnable c action params := by
  rintro (⟨spec, hspec⟩ | ⟨hname, -⟩)
  · rw [h] at hspec
    exact absurd hspec (by simp)
  · exact hjobs hname

/-- The unit's log is read once its name is accepted. -/
theorem buildActionSpec_serviceLogs (c : Catalogue) {unit : String} (h : unitNameOk unit = true) :
    c.buildActionSpec "GetServiceLogs" (.obj [("unit", .str unit)]) =
      .ok (getServiceLogs unit) := by
  have harm : c.buildArm (.obj [("unit", .str unit)]) "GetServiceLogs" =
      (validatedUnitName unit "unit").bind fun u => .ok (getServiceLogs u) := rfl
  rw [@buildActionSpec_of_known c _ ["unit"] _ rfl (by simp), harm,
    validatedUnitName_eq_ok.mpr ⟨h, rfl⟩]
  rfl

/-- The account's keys are read once its name is accepted. -/
theorem buildActionSpec_authorizedKeys (c : Catalogue) {username : String}
    (h : usernameOk username = true) :
    c.buildActionSpec "GetAuthorizedKeys" (.obj [("username", .str username)]) =
      .ok (getAuthorizedKeys username) := by
  have harm : c.buildArm (.obj [("username", .str username)]) "GetAuthorizedKeys" =
      (validatedUsername username "username").bind fun u => .ok (getAuthorizedKeys u) := rfl
  rw [@buildActionSpec_of_known c _ ["user", "username"] _ rfl (by simp), harm,
    validatedUsername_eq_ok.mpr ⟨h, rfl⟩]
  rfl

/-- The filters of the history are forwarded under names the daemon knows. -/
theorem validateActionParams_jobHistory (c : Catalogue) (input : Value) :
    c.validateActionParams "ListJobHistory"
      (.obj (forwarded input "limit" ++ forwarded input "status_filter" ++
        forwarded input "action_filter" ++ forwarded input "since_hours")) = .ok () := by
  refine validateKnownParams_of_subset fun member hmem => ?_
  simp only [List.mem_append] at hmem
  obtain ((hlimit | hstatus) | haction) | hhours := hmem
  · simp [forwarded_names hlimit]
  · simp [forwarded_names hstatus]
  · simp [forwarded_names haction]
  · simp [forwarded_names hhours]

/-- A tool that names its action outright. -/
theorem ok_some_inj {action action' : String} {params params' : Value}
    (h : (Except.ok (some (action, params)) : Except String (Option (String × Value))) =
      .ok (some (action', params'))) : action' = action ∧ params' = params :=
  (Prod.mk.inj (Option.some.inj (Except.ok.inj h))).imp Eq.symm Eq.symm

/-- Every tool can be answered, save those that would read as an account and forward none. -/
theorem query_tools_runnable (c : Catalogue) (toolName : String) (input : Value) (action : String)
    (params : Value) (h : queryToolToAction toolName input = .ok (some (action, params)))
    (hvalid : OperandsValid params) :
    Runnable c action params ↔ toolName ∉ accountTools := by
  have hanswered {spec : ActionSpec} (hspec : c.buildActionSpec action params = .ok spec)
      (htool : toolName ∉ accountTools) : Runnable c action params ↔ toolName ∉ accountTools :=
    iff_of_true (.inl ⟨spec, hspec⟩) htool
  have hrefused (hspec : c.buildActionSpec action params = .error (.missingParam "username"))
      (hjobs : action ≠ "ListJobHistory") (htool : toolName ∈ accountTools) :
      Runnable c action params ↔ toolName ∉ accountTools :=
    iff_of_false (not_runnable_of_error hspec hjobs) (not_not.mpr htool)
  unfold queryToolToAction at h
  split at h
  case h_24 => exact absurd h (by simp)
  -- one text of the input, checked by the daemon
  case h_8 =>
    obtain ⟨rfl, unit, rfl⟩ := forwardStr_eq_ok h
    exact hanswered (buildActionSpec_serviceLogs c (hvalid "unit" unit rfl)) (by decide)
  case h_22 =>
    obtain ⟨rfl, username, rfl⟩ := forwardStr_eq_ok h
    exact hanswered (buildActionSpec_authorizedKeys c (hvalid "username" username rfl)) (by decide)
  -- one text of the input, but no account to read as
  case h_13 =>
    obtain ⟨rfl, appId, rfl⟩ := forwardStr_eq_ok h
    exact hrefused rfl (by decide) (by decide)
  case h_14 =>
    obtain ⟨rfl, name, rfl⟩ := forwardStr_eq_ok h
    exact hrefused rfl (by decide) (by decide)
  -- the daemon's own records
  case h_23 =>
    obtain ⟨rfl, rfl⟩ := ok_some_inj h
    exact iff_of_true (.inr ⟨rfl, validateActionParams_jobHistory c input⟩) (by decide)
  all_goals obtain ⟨rfl, rfl⟩ := ok_some_inj h
  -- nothing of the input, and no account to read as
  case h_6 | h_10 | h_11 => exact hrefused rfl (by decide) (by decide)
  all_goals exact hanswered rfl (by decide)

theorem query_tools_runnable_services :
    queryToolToAction "query_services" (.obj []) = .ok (some ("ListServices", .obj [])) ∧
      OperandsValid (.obj []) ∧
      (Runnable ⟨fun _ => none, fun _ _ => .error (.unknownAction "")⟩ "ListServices" (.obj []) ↔
        "query_services" ∉ accountTools) :=
  have hvalid : OperandsValid (.obj []) := fun _ _ h => absurd h (by simp [Value.get])
  ⟨rfl, hvalid, query_tools_runnable _ "query_services" (.obj []) _ _ rfl hvalid⟩

/-- Asking for the containers only ever fails: no account is named. -/
theorem containers_not_runnable :
    ¬ ∀ (c : Catalogue) (toolName : String) (input : Value) (action : String) (params : Value),
      queryToolToAction toolName input = .ok (some (action, params)) → OperandsValid params →
        Runnable c action params := by
  intro h
  have hvalid : OperandsValid (.obj []) := fun _ _ h => absurd h (by simp [Value.get])
  have hrunnable := h ⟨fun _ => none, fun _ _ => .error (.unknownAction "")⟩ "query_containers"
    (.obj []) "ListContainers" (.obj []) rfl hvalid
  exact not_runnable_of_error rfl (by decide) hrunnable

end Sysknife.Brain
