import Sysknife.Actions.Validate
import Sysknife.Json

/-!
# Building the actions that run a packaging helper

The arms of `build_action_spec` whose command line runs `action-steps`, `mount-edit`,
`sudoers-edit` or `log-edit`: which parameters an action reads, how it validates them, and the
command it builds from them (`HelperAction.build`). The other arms of the catalogue are not
part of this file.

A member of the parameters that is absent or null counts as absent where the source says so
(`optionalStr` and its relatives); a required one that is absent is `MissingParam`.
-/

namespace Sysknife

/-! ### Reading parameters -/

namespace Value

/-- The value as a truth value. -/
def asBool : Value → Option Bool
  | .bool b => some b
  | _ => none

/-- The members of an object. -/
def asObject : Value → Option (List (String × Value))
  | .obj members => some members
  | _ => none

end Value

/-- A value of the wrong type refuses its parameter. -/
def orInvalid {α : Type} (param : String) : Option α → Except ExecutorError α
  | some a => .ok a
  | none => .error (.invalidParam param)

/-- A required member. -/
def requireWith {α : Type} (read : Value → Option α) (params : Value) (key : String) :
    Except ExecutorError α :=
  match params.get key with
  | none => .error (.missingParam key)
  | some v => orInvalid key (read v)

/-- An optional member; null counts as absent. -/
def optionalWith {α : Type} (read : Value → Option α) (params : Value) (key : String) :
    Except ExecutorError (Option α) :=
  match params.get key with
  | none => .ok none
  | some .null => .ok none
  | some v => (orInvalid key (read v)).map some

def requireStr := requireWith Value.asStr

def requireBool := requireWith Value.asBool

/-- The value as an unsigned 32-bit number. -/
def Value.asU32 (v : Value) : Option ℕ := v.asU64.filter fun n => decide (n < 2 ^ 32)

def requireU32 := requireWith Value.asU32

def optionalStr := optionalWith Value.asStr

def optionalBool := optionalWith Value.asBool

def optionalU64 := optionalWith Value.asU64

/-- The strings of an array; none when the member is absent. -/
def strArrayOrEmpty (params : Value) (key : String) : Except ExecutorError (List String) :=
  (optionalWith Value.asStrings params key).map fun items => items.getD []

/-- An optional text with a validator; the empty text counts as absent. -/
def optionalValidated (params : Value) (key : String)
    (validator : String → String → Except ExecutorError String) :
    Except ExecutorError (Option String) := do
  match (← optionalStr params key).filter fun s => !s.isEmpty with
  | none => .ok none
  | some s => (validator s key).map some

/-- The account an action is about, under `username` or its alias `user`. -/
def resolveUsername (params : Value) : Except ExecutorError String :=
  match (params.get "username").or (params.get "user") with
  | none => .error (.missingParam "username")
  | some v => orInvalid "username" v.asStr

/-! ### Command lines -/

def actionSteps : String := "/usr/lib/sysknife/action-steps"

def mountEdit : String := "/usr/lib/sysknife/mount-edit"

def sudoersEdit : String := "/usr/lib/sysknife/sudoers-edit"

def logEdit : String := "/usr/lib/sysknife/log-edit"

/-- An action that runs a helper as root. -/
@[grind =]
def sudoSpec (actionName : String) (riskLevel : RiskLevel) (args : List String) : ActionSpec where
  actionName
  mechanism := .command "sudo" args
  riskLevel
  rebootRequired := false
  rollbackAvailable := false

/-- A package or deployment action: it needs a reboot and can be rolled back. -/
def deploymentSpec (actionName : String) (args : List String) : ActionSpec where
  actionName
  mechanism := .command "sudo" ([actionSteps, "rpm-ostree"] ++ args)
  riskLevel := .high
  rebootRequired := true
  rollbackAvailable := true

/-- The flag with its value, if there is one. -/
def flagged (flag : String) : Option String → List String
  | none => []
  | some value => [flag, value]

/-! ### The actions -/

/-- The actions whose command line runs one of the four helpers. -/
inductive HelperAction
  | startService | stopService | restartService | setServiceEnabled | maskService | unmaskService
  | reloadService
  | createUser | deleteUser | addUserToGroup | removeUserFromGroup | createGroup | deleteGroup
  | lockUserAccount | unlockUserAccount
  | signalProcess | setPasswordAging
  | extendLogicalVolume | createLogicalVolume | createLvSnapshot
  | aptUpdate | aptUpgrade | aptInstall | aptRemove | aptPurge | aptAutoremove | aptHold
  | aptUnhold
  | installPackages | removePackages | addLayeredPackage | removeLayeredPackage
  | replaceLayeredPackage | removeBasePackage | rebaseSystem | setKernelArguments
  | addAuthorizedKey | removeAuthorizedKey
  | addMount | removeMount | addSwap | removeSwap
  | getSudoGrants | grantSudoAccess | revokeSudoAccess
  | configureLogRotation | removeLogRotation | configureRemoteSyslog | removeRemoteSyslog
  deriving DecidableEq, Repr

namespace HelperAction

/-- The names of the parameters an action accepts. -/
def allowedParams : HelperAction → List String
  | .startService | .stopService | .restartService | .maskService | .unmaskService
  | .reloadService => ["unit"]
  | .setServiceEnabled => ["enabled", "unit"]
  | .createUser => ["home", "shell", "user", "username"]
  | .deleteUser | .lockUserAccount | .unlockUserAccount => ["user", "username"]
  | .addUserToGroup | .removeUserFromGroup => ["group", "user", "username"]
  | .createGroup => ["group", "system"]
  | .deleteGroup => ["group"]
  | .signalProcess => ["pid", "signal"]
  | .setPasswordAging => ["max_days", "min_days", "user", "warn_days"]
  | .extendLogicalVolume => ["lv", "size", "vg"]
  | .createLogicalVolume => ["name", "size", "vg"]
  | .createLvSnapshot => ["origin", "size", "snapshot", "vg"]
  | .aptUpdate | .aptUpgrade | .aptAutoremove | .getSudoGrants | .removeRemoteSyslog => []
  | .aptInstall | .aptRemove | .aptPurge | .aptHold | .aptUnhold | .addLayeredPackage
  | .removeLayeredPackage | .removeBasePackage => ["package"]
  | .installPackages | .removePackages => ["packages"]
  | .replaceLayeredPackage => ["new", "old"]
  | .rebaseSystem => ["target_ref"]
  | .setKernelArguments => ["add", "remove"]
  | .addAuthorizedKey | .removeAuthorizedKey => ["public_key", "user", "username"]
  | .addMount => ["device", "fstype", "mountpoint", "options"]
  | .removeMount => ["mountpoint"]
  | .addSwap => ["file", "size_mb"]
  | .removeSwap => ["file"]
  | .grantSudoAccess => ["commands", "name", "nopasswd", "runas", "user"]
  | .revokeSudoAccess | .removeLogRotation => ["name"]
  | .configureLogRotation => ["compress", "frequency", "name", "path", "rotate"]
  | .configureRemoteSyslog => ["host", "port", "protocol"]

end HelperAction

/-- Parameters are an object with known members only. -/
def validateActionParams (a : HelperAction) (params : Value) : Except ExecutorError Unit := do
  let members ← orInvalid "params" params.asObject
  if members.any fun m => !a.allowedParams.contains m.1 then
    .error (.invalidParam "unknown parameter")
  else .ok ()

/-- `str::parse::<u64>`: decimal digits, possibly after a `+`, without overflow. -/
def parseU64 (s : String) : Option ℕ :=
  let digits := ((Text.stripStart "+" s).getD s).toList
  if digits.isEmpty || !digits.all Char.isDigit then none
  else (some (Nat.ofDigitChars 10 digits 0)).filter fun n => decide (n < 2 ^ 64)

/-- A process number, as a JSON number or as text. -/
def requirePid (params : Value) : Except ExecutorError ℕ := do
  let pid? := (params.get "pid").bind fun v =>
    v.asU64.or (v.asStr.bind fun s => parseU64 (trim s))
  match pid? with
  | none => .error (.missingParam "pid")
  | some pid =>
    if pid < 2 ∨ 2 ^ 32 ≤ pid then .error (.invalidParam "pid") else .ok pid

def maxPasswordAgeDays : ℕ := 99999

/-- One flag of `chage`, if its parameter is given. -/
def agingFlag (params : Value) (key flag : String) : Except ExecutorError (List String) := do
  match ← optionalU64 params key with
  | none => .ok []
  | some n =>
    if maxPasswordAgeDays < n then .error (.invalidParam key) else .ok [flag, toString n]

def maxSwapSizeMb : ℕ := 1048576

def maxPort : ℕ := 65535

/-- The account a grant runs commands as, if the request names one. -/
def runasOf (params : Value) : Except ExecutorError (Option String) := do
  match (← optionalStr params "runas").filter fun s => !s.isEmpty with
  | none => .ok none
  | some runas =>
    if runas = "ALL" then .ok (some runas) else (validatedUsername runas "runas").map some

namespace HelperAction

/-- The arm of `build_action_spec` for an action. -/
@[grind =]
def arm (params : Value) : HelperAction → Except ExecutorError ActionSpec
  | .startService => do
    let unit ← validatedActivatableUnit (← requireStr params "unit") "unit"
    .ok (sudoSpec "StartService" .medium [actionSteps, "unit", "start", unit])
  | .stopService => do
    let unit ← validatedStoppableUnit (← requireStr params "unit") "unit"
    .ok (sudoSpec "StopService" .medium [actionSteps, "unit", "stop", unit])
  | .restartService => do
    let unit ← validatedActivatableUnit (← requireStr params "unit") "unit"
    let unit ← validatedStoppableUnit unit "unit"
    .ok (sudoSpec "RestartService" .medium [actionSteps, "unit", "restart", unit])
  | .setServiceEnabled => do
    let enabled ← requireBool params "enabled"
    let unit ← requireStr params "unit"
    let unit ←
      if enabled then validatedActivatableUnit unit "unit" else validatedUnitName unit "unit"
    let verb := if enabled then "enable" else "disable"
    .ok (sudoSpec "SetServiceEnabled" .medium [actionSteps, "unit", verb, unit])
  | .maskService => do
    let unit ← validatedUnitName (← requireStr params "unit") "unit"
    .ok (sudoSpec "MaskService" .high [actionSteps, "unit", "mask", unit])
  | .unmaskService => do
    let unit ← validatedActivatableUnit (← requireStr params "unit") "unit"
    .ok (sudoSpec "UnmaskService" .medium [actionSteps, "unit", "unmask", unit])
  | .reloadService => do
    let unit ← validatedUnitName (← requireStr params "unit") "unit"
    .ok (sudoSpec "ReloadService" .medium [actionSteps, "unit", "reload", unit])
  | .createUser => do
    let username ← validatedUsername (← resolveUsername params) "username"
    let shell ← (← optionalStr params "shell").mapM fun s => validatedSafeArg s "shell"
    let home ← (← optionalStr params "home").mapM fun h => validatedHomeDir h "home"
    .ok (sudoSpec "CreateUser" .high ([actionSteps, "user-create", username] ++
      flagged "--home-dir" home ++ flagged "--shell" shell))
  | .deleteUser => do
    let username ← validatedUsernameNotCritical (← resolveUsername params) "username"
    .ok (sudoSpec "DeleteUser" .high [actionSteps, "user-delete", username])
  | .addUserToGroup => do
    let username ← validatedUsername (← resolveUsername params) "username"
    let group ← validatedGroup (← requireStr params "group") "group"
    .ok (sudoSpec "AddUserToGroup" .high [actionSteps, "group-add", username, group])
  | .removeUserFromGroup => do
    let username ← validatedUsername (← resolveUsername params) "username"
    let group ← validatedGroup (← requireStr params "group") "group"
    .ok (sudoSpec "RemoveUserFromGroup" .high [actionSteps, "group-remove", username, group])
  | .createGroup => do
    let group ← validatedGroup (← requireStr params "group") "group"
    let system := (← optionalBool params "system").getD false
    .ok (sudoSpec "CreateGroup" .medium ([actionSteps, "group-create"] ++
      (if system then ["--system"] else []) ++ [group]))
  | .deleteGroup => do
    let group ← validatedGroupNotCritical (← requireStr params "group") "group"
    .ok (sudoSpec "DeleteGroup" .high [actionSteps, "group-delete", group])
  | .lockUserAccount => do
    let username ← validatedUsernameNotCritical (← resolveUsername params) "username"
    .ok (sudoSpec "LockUserAccount" .high [actionSteps, "user-lock", username])
  | .unlockUserAccount => do
    let username ← validatedUsernameNotCritical (← resolveUsername params) "username"
    .ok (sudoSpec "UnlockUserAccount" .high [actionSteps, "user-unlock", username])
  | .signalProcess => do
    let pid ← requirePid params
    let signal ← validatedKillSignal ((← optionalStr params "signal").getD "TERM")
    .ok (sudoSpec "SignalProcess" .high [actionSteps, "signal", signal, toString pid])
  | .setPasswordAging => do
    let user ← validatedUsername (← requireStr params "user") "user"
    let maxDays ← agingFlag params "max_days" "-M"
    let minDays ← agingFlag params "min_days" "-m"
    let warnDays ← agingFlag params "warn_days" "-W"
    let flags := maxDays ++ minDays ++ warnDays
    if flags.isEmpty then .error (.missingParam "max_days")
    else .ok (sudoSpec "SetPasswordAging" .high ([actionSteps, "password-aging", user] ++ flags))
  | .extendLogicalVolume => do
    let vg ← validatedLvmName (← requireStr params "vg") "vg"
    let lv ← validatedLvmName (← requireStr params "lv") "lv"
    let size ← validatedLvmSize (← requireStr params "size") "size"
    .ok (sudoSpec "ExtendLogicalVolume" .high [actionSteps, "lv-extend", vg, lv, size])
  | .createLogicalVolume => do
    let vg ← validatedLvmName (← requireStr params "vg") "vg"
    let name ← validatedLvmName (← requireStr params "name") "name"
    let size ← validatedLvmSize (← requireStr params "size") "size"
    .ok (sudoSpec "CreateLogicalVolume" .medium [actionSteps, "lv-create", vg, name, size])
  | .createLvSnapshot => do
    let vg ← validatedLvmName (← requireStr params "vg") "vg"
    let origin ← validatedLvmName (← requireStr params "origin") "origin"
    let snapshot ← validatedLvmName (← requireStr params "snapshot") "snapshot"
    let size ← validatedLvmSize (← requireStr params "size") "size"
    .ok (sudoSpec "CreateLvSnapshot" .medium
      [actionSteps, "lv-snapshot", vg, origin, snapshot, size])
  | .aptUpdate => .ok (sudoSpec "AptUpdate" .low [actionSteps, "apt", "update"])
  | .aptUpgrade => .ok (sudoSpec "AptUpgrade" .high [actionSteps, "apt", "dist-upgrade"])
  | .aptInstall => do
    let package ← validatedInstallPackage (← requireStr params "package") "package"
    .ok (sudoSpec "AptInstall" .medium [actionSteps, "apt", "install", package])
  | .aptRemove => do
    let package ← validatedUnmodifiedPackage (← requireStr params "package") "package"
    .ok (sudoSpec "AptRemove" .medium [actionSteps, "apt", "remove", package])
  | .aptPurge => do
    let package ← validatedUnmodifiedPackage (← requireStr params "package") "package"
    .ok (sudoSpec "AptPurge" .medium [actionSteps, "apt", "purge", package])
  | .aptAutoremove => .ok (sudoSpec "AptAutoremove" .medium [actionSteps, "apt", "autoremove"])
  | .aptHold => do
    let package ← validatedUnmodifiedPackage (← requireStr params "package") "package"
    .ok (sudoSpec "AptHold" .medium [actionSteps, "apt", "hold", package])
  | .aptUnhold => do
    let package ← validatedUnmodifiedPackage (← requireStr params "package") "package"
    .ok (sudoSpec "AptUnhold" .medium [actionSteps, "apt", "unhold", package])
  | .installPackages => do
    let packages ← (← strArrayOrEmpty params "packages").mapM fun p =>
      validatedInstallPackage p "packages"
    .ok (deploymentSpec "InstallPackages" ("install" :: packages))
  | .removePackages => do
    let packages ← (← strArrayOrEmpty params "packages").mapM fun p =>
      validatedInstallPackage p "packages"
    .ok (deploymentSpec "RemovePackages" ("uninstall" :: packages))
  | .addLayeredPackage => do
    let package ← validatedInstallPackage (← requireStr params "package") "package"
    .ok (deploymentSpec "AddLayeredPackage" ["install", package])
  | .removeLayeredPackage => do
    let package ← validatedInstallPackage (← requireStr params "package") "package"
    .ok (deploymentSpec "RemoveLayeredPackage" ["uninstall", package])
  | .replaceLayeredPackage => do
    let old ← validatedInstallPackage (← requireStr params "old") "old"
    let new ← validatedInstallPackage (← requireStr params "new") "new"
    .ok (deploymentSpec "ReplaceLayeredPackage" ["replace", old, new])
  | .removeBasePackage => do
    let package ← validatedInstallPackage (← requireStr params "package") "package"
    .ok (deploymentSpec "RemoveBasePackage" ["override-remove", package])
  | .rebaseSystem => do
    let targetRef ← validatedRebaseRef (← requireStr params "target_ref") "target_ref"
    .ok (deploymentSpec "RebaseSystem" ["rebase", targetRef])
  | .setKernelArguments => do
    let add ← strArrayOrEmpty params "add"
    let remove ← strArrayOrEmpty params "remove"
    let add ← add.mapM fun arg => validatedSafeKernelArg arg "add"
    let remove ← remove.mapM fun arg => validatedSafeKernelArgRemoval arg "remove"
    .ok (deploymentSpec "SetKernelArguments" ("kargs" ::
      (add.flatMap fun arg => ["append", arg]) ++ remove.flatMap fun arg => ["delete", arg]))
  | .addAuthorizedKey => do
    let username ← validatedUsername (← resolveUsername params) "username"
    let publicKey ← validatedPublicKey (← requireStr params "public_key")
    .ok (sudoSpec "AddAuthorizedKey" .high [actionSteps, "ssh-add", username, publicKey])
  | .removeAuthorizedKey => do
    let username ← validatedUsername (← resolveUsername params) "username"
    let publicKey ← validatedPublicKey (← requireStr params "public_key")
    .ok (sudoSpec "RemoveAuthorizedKey" .high [actionSteps, "ssh-remove", username, publicKey])
  | .addMount => do
    let device ← validatedMountDevice (← requireStr params "device") "device"
    let mountpoint ← validatedMountPoint (← requireStr params "mountpoint") "mountpoint"
    let fstype ← validatedFstype (← requireStr params "fstype") "fstype"
    let options ← optionalValidated params "options" validatedMountOptions
    .ok (sudoSpec "AddMount" .high ([mountEdit, "--op", "mount", "--device", device,
      "--mountpoint", mountpoint, "--fstype", fstype] ++ flagged "--options" options))
  | .removeMount => do
    let mountpoint ← validatedMountPoint (← requireStr params "mountpoint") "mountpoint"
    .ok (sudoSpec "RemoveMount" .high [mountEdit, "--op", "unmount", "--mountpoint", mountpoint])
  | .addSwap => do
    let file ← validatedSwapPath (← requireStr params "file") "file"
    let sizeMb ← requireU32 params "size_mb"
    if 1 ≤ sizeMb ∧ sizeMb ≤ maxSwapSizeMb then
      .ok (sudoSpec "AddSwap" .high
        [mountEdit, "--op", "addswap", "--file", file, "--size-mb", toString sizeMb])
    else .error (.invalidParam "size_mb")
  | .removeSwap => do
    let file ← validatedSwapPath (← requireStr params "file") "file"
    .ok (sudoSpec "RemoveSwap" .high [mountEdit, "--op", "rmswap", "--file", file])
  | .getSudoGrants =>
    .ok
      { actionName := "GetSudoGrants"
        mechanism := .command sudoersEdit ["--op", "list"]
        riskLevel := .low
        rebootRequired := false
        rollbackAvailable := false }
  | .grantSudoAccess => do
    let name ← validatedSudoersName (← requireStr params "name") "name"
    let user ← validatedUsername (← requireStr params "user") "user"
    let commands ← validatedSudoCommands (← requireStr params "commands") "commands"
    let runas ← runasOf params
    let nopasswd := (← optionalBool params "nopasswd").getD false
    if (commands == "ALL" || (shellEquivalentSudoCommand commands).isSome) && nopasswd then
      .error (.invalidParam "commands")
    else
      .ok (sudoSpec "GrantSudoAccess" .high ([sudoersEdit, "--op", "grant", "--name", name,
        "--user", user, "--commands", commands] ++ flagged "--runas" runas ++
          if nopasswd then ["--nopasswd"] else []))
  | .revokeSudoAccess => do
    let name ← validatedSudoersName (← requireStr params "name") "name"
    .ok (sudoSpec "RevokeSudoAccess" .high [sudoersEdit, "--op", "revoke", "--name", name])
  | .configureLogRotation => do
    let name ← validatedSudoersName (← requireStr params "name") "name"
    let frequency ← requireStr params "frequency"
    let frequency ←
      checked (["daily", "weekly", "monthly"].contains frequency) frequency "frequency"
    let rotate ← requireU32 params "rotate"
    if 1000 < rotate then .error (.invalidParam "rotate")
    else
      let path ← validatedLogRotation (← requireStr params "path") rotate
      let compress := (← optionalBool params "compress").getD false
      .ok (sudoSpec "ConfigureLogRotation" .medium ([logEdit, "--op", "logrotate", "--name", name,
        "--path", path, "--frequency", frequency, "--rotate", toString rotate] ++
          if compress then ["--compress"] else []))
  | .removeLogRotation => do
    let name ← validatedSudoersName (← requireStr params "name") "name"
    .ok (sudoSpec "RemoveLogRotation" .medium [logEdit, "--op", "rm-logrotate", "--name", name])
  | .configureRemoteSyslog => do
    let host ← validatedSyslogHost (← requireStr params "host") "host"
    let port ← requireU32 params "port"
    if 1 ≤ port ∧ port ≤ maxPort then
      let protocol ← requireStr params "protocol"
      let protocol ← checked (["tcp", "udp"].contains protocol) protocol "protocol"
      .ok (sudoSpec "ConfigureRemoteSyslog" .high [logEdit, "--op", "rsyslog-forward", "--host",
        host, "--port", toString port, "--protocol", protocol])
    else .error (.invalidParam "port")
  | .removeRemoteSyslog => .ok (sudoSpec "RemoveRemoteSyslog" .high [logEdit, "--op", "rm-forward"])

/-- What an action runs, from its parameters. -/
def buildActionSpec (a : HelperAction) (params : Value) : Except ExecutorError ActionSpec := do
  validateActionParams a params
  a.arm params

end HelperAction

end Sysknife
