import Sysknife.Actions.Build

/-!
# Other arms of the catalogue

Two actions name a deployment by its position in a list, and their command line carries that
position and nothing else. The others only read: they are the actions behind the planner's query
tools. What remains of `build_action_spec` is a parameter (`Catalogue`).
-/

namespace Sysknife

/-- Parameters are an object with members of these names only. -/
def validateKnownParams (allowed : List String) (params : Value) : Except ExecutorError Unit := do
  let members ← orInvalid "params" params.asObject
  if members.any fun m => !allowed.contains m.1 then
    .error (.invalidParam "unknown parameter")
  else .ok ()

/-! ### Deployments by their index -/

def pinDeployment (index : ℕ) : ActionSpec where
  actionName := "PinDeployment"
  mechanism := .command "sudo" ["ostree", "admin", "pin", toString index]
  riskLevel := .high
  rebootRequired := false
  rollbackAvailable := false

def unpinDeployment (index : ℕ) : ActionSpec where
  actionName := "UnpinDeployment"
  mechanism := .command "sudo" ["ostree", "admin", "pin", "--unpin", toString index]
  riskLevel := .high
  rebootRequired := false
  rollbackAvailable := false

/-- An action on the deployment at an index: the only parameter there is. -/
def atIndex (action : ℕ → ActionSpec) (params : Value) : Except ExecutorError ActionSpec := do
  validateKnownParams ["index"] params
  let index ← requireU32 params "index"
  return action index

/-- The index of the command line is the one of the parameters, and fits in 32 bits. -/
theorem atIndex_eq_ok {action : ℕ → ActionSpec} {params : Value} {spec : ActionSpec}
    (h : atIndex action params = .ok spec) : ∃ index < 2 ^ 32,
      (params.get "index").bind Value.asU64 = some index ∧ spec = action index := by
  unfold atIndex at h
  cases hknown : validateKnownParams ["index"] params with
  | error e => simp [hknown, bind, Except.bind] at h
  | ok u =>
    simp only [hknown, bind, Except.bind, requireU32, requireWith] at h
    cases hget : params.get "index" with
    | none => simp [hget] at h
    | some v =>
      simp only [hget] at h
      cases hread : v.asU32 with
      | none => simp [hread, orInvalid] at h
      | some index =>
        obtain ⟨hu64, hlt⟩ := Option.filter_eq_some_iff.mp hread
        rw [hread] at h
        exact ⟨index, by simpa using hlt, hu64, (Except.ok.inj h).symm⟩

/-! ### Actions that only read -/

/-- An action that only reads. -/
def readSpec (actionName : String) (mechanism : ActionMechanism) : ActionSpec where
  actionName
  mechanism
  riskLevel := .low
  rebootRequired := false
  rollbackAvailable := false

/-- A tool of an account, run as that account by the helper. -/
def runAs (tool username : String) (args : List String) : ActionMechanism :=
  .command "sudo" ([actionSteps, tool, username] ++ args)

def ufwStatusWithNumbered (numbered : Bool) : ActionSpec :=
  readSpec "UfwStatus"
    (.command "sudo" ["ufw", "status", if numbered then "numbered" else "verbose"])

def listServices : ActionSpec :=
  readSpec "ListServices"
    (.command "systemctl" ["list-units", "--type=service", "--all", "--no-legend", "--no-pager"])

def getFirewallBackendState : ActionSpec :=
  readSpec "GetFirewallBackendState" (.command "/usr/lib/sysknife/firewall-state" [])

def listDeployments : ActionSpec :=
  readSpec "ListDeployments" (.command "rpm-ostree" ["status", "--json"])

def getLayeredPackages : ActionSpec :=
  readSpec "GetLayeredPackages" (.command "rpm-ostree" ["status", "--json"])

def getDeploymentHistory : ActionSpec :=
  readSpec "GetDeploymentHistory" (.command "rpm-ostree" ["status", "--json"])

def getKernelArguments : ActionSpec :=
  readSpec "GetKernelArguments" (.command "rpm-ostree" ["kargs"])

def listContainers (username : String) : ActionSpec :=
  readSpec "ListContainers" (runAs "podman" username ["ps", "--all", "--format", "json"])

def getContainerInfo (username name : String) : ActionSpec :=
  readSpec "GetContainerInfo" (runAs "podman" username ["inspect", name])

def listFlatpakRemotes (username : String) : ActionSpec :=
  readSpec "ListFlatpakRemotes"
    (runAs "flatpak" username ["remotes", "--user", "--columns=name,url"])

def getFlatpakAppInfo (username appId : String) : ActionSpec :=
  readSpec "GetFlatpakAppInfo" (runAs "flatpak" username ["info", "--user", appId])

def listToolboxes (username : String) : ActionSpec :=
  readSpec "ListToolboxes" (runAs "toolbox" username ["list"])

def listUsers : ActionSpec := readSpec "ListUsers" (.command "getent" ["passwd"])

def listGroups : ActionSpec := readSpec "ListGroups" (.command "getent" ["group"])

def getServiceLogs (unit : String) : ActionSpec :=
  readSpec "GetServiceLogs" (.command "journalctl" ["-u", unit, "-n", "200", "--no-pager"])

def collectDiagnostics : ActionSpec :=
  readSpec "CollectDiagnostics" (.command "journalctl" ["-b", "-n", "500", "--no-pager"])

def listPackageRepositories : ActionSpec :=
  readSpec "ListPackageRepositories" (.fileScan "/etc/yum.repos.d")

def diskUsageSpec : ActionSpec :=
  readSpec "GetDiskUsage" (.command "df"
    ["-h", "--output=source,fstype,size,used,avail,pcent,target", "--exclude-type=composefs",
      "--exclude-type=tmpfs", "--exclude-type=devtmpfs", "--exclude-type=efivarfs"])

def listProcessesSpec : ActionSpec :=
  readSpec "ListProcesses" (.command "ps" ["aux", "--sort=-%mem"])

def getMemoryInfoSpec : ActionSpec := readSpec "GetMemoryInfo" (.command "free" ["-h"])

def getNetworkStatus : ActionSpec := readSpec "GetNetworkStatus" (.command "ip" ["-brief", "addr"])

def getAuthorizedKeys (username : String) : ActionSpec :=
  readSpec "GetAuthorizedKeys" (.command "cat" ["/home/" ++ username ++ "/.ssh/authorized_keys"])

/-! ### The catalogue -/

/-- The arms of the catalogue that are not modelled. -/
structure Catalogue where
  allowedActionParams : String → Option (List String)
  arm : String → Value → Except ExecutorError ActionSpec

namespace Catalogue

/-- The names of the parameters an action accepts, if there is such an action. -/
def allowedParams (c : Catalogue) : String → Option (List String)
  | "ListServices" | "GetFirewallBackendState" | "ListDeployments" | "GetLayeredPackages"
  | "GetDeploymentHistory" | "GetKernelArguments" | "ListUsers" | "ListGroups"
  | "CollectDiagnostics" | "ListPackageRepositories" | "GetDiskUsage" | "ListProcesses"
  | "GetMemoryInfo" | "GetNetworkStatus" => some []
  | "PinDeployment" | "UnpinDeployment" => some ["index"]
  | "ListFlatpakRemotes" | "ListContainers" | "ListToolboxes" | "GetAuthorizedKeys" =>
    some ["user", "username"]
  | "GetFlatpakAppInfo" => some ["app_id", "user", "username"]
  | "GetContainerInfo" => some ["name", "user", "username"]
  | "GetServiceLogs" => some ["unit"]
  | "UfwStatus" => some ["numbered"]
  | "ListJobHistory" => some ["limit", "status_filter", "action_filter", "since_hours", "since"]
  | actionName => c.allowedActionParams actionName

/-- The action is known, and its parameters are an object with known members only. -/
def validateActionParams (c : Catalogue) (actionName : String) (params : Value) :
    Except ExecutorError Unit :=
  match c.allowedParams actionName with
  | none => .error (.unknownAction actionName)
  | some allowed => validateKnownParams allowed params

/-- The account an action is about, as every action that reads as an account validates it. -/
def account (params : Value) : Except ExecutorError String := do
  validatedUsername (← resolveUsername params) "username"

/-- The arm of `build_action_spec` for an action. -/
def buildArm (c : Catalogue) (params : Value) : String → Except ExecutorError ActionSpec
  | "ListDeployments" => .ok listDeployments
  | "CollectDiagnostics" => .ok collectDiagnostics
  | "GetDeploymentHistory" => .ok getDeploymentHistory
  | "GetKernelArguments" => .ok getKernelArguments
  | "PinDeployment" => (requireU32 params "index").map pinDeployment
  | "UnpinDeployment" => (requireU32 params "index").map unpinDeployment
  | "ListFlatpakRemotes" => do
    let username ← account params
    .ok (listFlatpakRemotes username)
  | "GetFlatpakAppInfo" => do
    let username ← account params
    let appId ← validatedSafeArg (← requireStr params "app_id") "app_id"
    .ok (getFlatpakAppInfo username appId)
  | "ListContainers" => do
    let username ← account params
    .ok (listContainers username)
  | "GetContainerInfo" => do
    let username ← account params
    let name ← validatedSafeArg (← requireStr params "name") "name"
    .ok (getContainerInfo username name)
  | "GetLayeredPackages" => .ok getLayeredPackages
  | "ListPackageRepositories" => .ok listPackageRepositories
  | "ListServices" => .ok listServices
  | "GetServiceLogs" => do
    let unit ← validatedUnitName (← requireStr params "unit") "unit"
    .ok (getServiceLogs unit)
  | "ListToolboxes" => do
    let username ← account params
    .ok (listToolboxes username)
  | "GetDiskUsage" => .ok diskUsageSpec
  | "ListProcesses" => .ok listProcessesSpec
  | "GetMemoryInfo" => .ok getMemoryInfoSpec
  | "GetNetworkStatus" => .ok getNetworkStatus
  | "GetFirewallBackendState" => .ok getFirewallBackendState
  | "ListUsers" => .ok listUsers
  | "ListGroups" => .ok listGroups
  | "GetAuthorizedKeys" => do
    let username ← account params
    .ok (getAuthorizedKeys username)
  | "UfwStatus" =>
    match params.get "numbered" with
    | none => .ok (ufwStatusWithNumbered false)
    | some value => (orInvalid "numbered" value.asBool).map ufwStatusWithNumbered
  | actionName => c.arm actionName params

/-- Build an action from its name and its parameters. -/
def buildActionSpec (c : Catalogue) (actionName : String) (params : Value) :
    Except ExecutorError ActionSpec := do
  c.validateActionParams actionName params
  c.buildArm params actionName

end Catalogue

end Sysknife
