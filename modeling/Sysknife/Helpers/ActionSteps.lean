import Sysknife.Lib.Pattern
import Sysknife.Types

/-!
# The `action-steps` helper

`packaging/sysknife-action-steps`, the program the daemon runs as root for its multi-step
actions. It validates its whole argument vector again, on lists and regular expressions of its
own, and only then touches the host. `main` answers with the steps it goes on to take, or with
the `ValueError` it refuses with.

What the host has to say comes after that and is part of the steps: whether an account exists
and is not root, whether a package is known, whether a command succeeds.
-/

namespace Sysknife.ActionSteps

open Text

/-- Hand a value back, or raise `ValueError(message)`. -/
def orRaise {α : Type} (ok : Bool) (message : String) (value : α) : Except String α :=
  if ok then .ok value else .error message

theorem orRaise_eq_ok {α : Type} {ok : Bool} {message : String} {value v : α} :
    orRaise ok message value = .ok v ↔ ok = true ∧ v = value := by
  cases ok <;> simp [orRaise, eq_comm]

/-- `re.fullmatch` -/
def matchesAll (r : Pattern) (value : String) : Bool := r.fullmatch value.toList

/-! ### Environments and lists -/

def systemEnv : List (String × String) :=
  [("PATH", "/usr/sbin:/usr/bin:/sbin:/bin"), ("LANG", "C.UTF-8")]

def aptEnv : List (String × String) :=
  systemEnv ++ [("DEBIAN_FRONTEND", "noninteractive"), ("NEEDRESTART_MODE", "a")]

/-- The verbs that take no operand, with the arguments they stand for. -/
def aptBare : List (String × List String) :=
  [("update", ["update"]), ("dist-upgrade", ["dist-upgrade", "-y"]),
    ("autoremove", ["autoremove", "-y"])]

def aptWithPackage : List String := ["install", "remove", "purge", "hold", "unhold"]

/-- Turns off the reading of an operand as a regular expression. -/
def aptExactNames : List String := ["-o", "APT::Cmd::Pattern-Only=1"]

def rpmOstree : String := "/usr/bin/rpm-ostree"

def rpmOstreeVerbs : List String :=
  ["install", "uninstall", "replace", "override-remove", "rebase", "kargs"]

def localImageTransports : List String :=
  ["oci", "oci-archive", "dir", "docker-archive", "docker-daemon", "containers-storage", "ostree",
    "sif", "tarball", "file"]

def unverifiedImageTransports : List String :=
  ["ostree-unverified-registry", "ostree-unverified-image"]

def kargFlags : List String :=
  ["quiet", "splash", "rhgb", "nomodeset", "nowatchdog", "threadirqs"]

def kargHardeningFlags : List String := ["nosmt", "slab_nomerge"]

def kargValueKeys : List String :=
  ["console", "video", "loglevel", "hugepages", "hugepagesz", "default_hugepagesz",
    "nvme_core.default_ps_max_latency_us", "usbcore.autosuspend", "nvidia_drm.modeset",
    "nvidia_drm.fbdev", "i915.enable_psr", "amdgpu.dc", "acpi_backlight", "mem_sleep_default",
    "pcie_aspm", "transparent_hugepage", "zswap.enabled", "systemd.show_status",
    "plymouth.enable"]

def kargListValues : List (String × List String) :=
  [("rd.driver.blacklist",
    ["nouveau", "nvidia", "nvidia_drm", "nvidia_modeset", "radeon", "amdgpu", "i915"])]

def kargHardeningValues : List (String × List String) :=
  [("lockdown", ["integrity", "confidentiality"]), ("module.sig_enforce", ["1"]),
    ("intel_iommu", ["on"]), ("amd_iommu", ["force_isolation"]), ("init_on_alloc", ["1"]),
    ("init_on_free", ["1"]), ("page_alloc.shuffle", ["1"]), ("randomize_kstack_offset", ["on"]),
    ("mitigations", ["auto", "auto,nosmt"]), ("pti", ["on"]), ("vsyscall", ["none"]),
    ("debugfs", ["off"])]

def kargWeakening : List String :=
  ["selinux=0", "enforcing=0", "apparmor=0", "lockdown=none", "debugfs=on", "iommu=off",
    "intel_iommu=off", "nokaslr", "nopti", "nosmap", "nosmep", "nospectre_v1", "nospectre_v2",
    "nospec_store_bypass_disable", "nospectre_bhb", "single", "emergency", "rescue", "rd.break",
    "rd.shell", "systemd.debug_shell", "init=/bin/sh", "init=/bin/bash", "mitigations=off",
    "pti=off", "audit=0", "module.sig_enforce=0", "init_on_alloc=0", "init_on_free=0",
    "page_alloc.shuffle=0", "randomize_kstack_offset=off", "spectre_v2=off",
    "spec_store_bypass_disable=off", "mds=off", "tsx_async_abort=off", "mmio_stale_data=off",
    "retbleed=off", "srbds=off", "l1tf=off", "spectre_bhi=off", "gather_data_sampling=off",
    "reg_file_data_sampling=off"]

def rootShellUnits : List String := ["debug-shell", "emergency", "rescue", "runlevel1", "single"]

def unitSuffixes : List String :=
  [".service", ".target", ".socket", ".mount", ".path", ".slice", ".scope"]

def powerStateUnits : List String :=
  ["reboot", "soft-reboot", "poweroff", "halt", "kexec", "ctrl-alt-del", "exit", "runlevel0",
    "runlevel6", "shutdown", "umount", "sleep", "suspend", "hibernate", "hybrid-sleep",
    "suspend-then-hibernate", "systemd-reboot", "systemd-soft-reboot", "systemd-poweroff",
    "systemd-halt", "systemd-kexec", "systemd-exit", "systemd-suspend", "systemd-hibernate",
    "systemd-hybrid-sleep", "systemd-suspend-then-hibernate"]

def protectedUnits : List String :=
  ["sysknife-daemon", "auditd", "systemd-journald", "rsyslog", "dbus", "dbus-broker", "polkit",
    "polkitd", "systemd-logind", "ssh", "sshd"]

def protectedUnitPrefixes : List String := ["systemd-journald", "auditd", "audit-rules"]

def activatingVerbs : List String := ["start", "restart", "enable", "unmask"]

def stoppingVerbs : List String := ["stop", "restart"]

def quiescingVerbs : List String := ["stop", "disable", "mask", "reload"]

def criticalAccounts : List String := ["root", "daemon", "bin", "sys", "sudo", "adm"]

def criticalGroups : List String :=
  ["root", "sudo", "wheel", "adm", "sys", "daemon", "bin", "staff", "shadow", "disk"]

def signals : List String := ["TERM", "KILL", "HUP", "INT"]

def agingFlags : List String := ["-M", "-m", "-W"]

/-! ### Operand validators -/

/-- `[A-Za-z0-9@._:-]+` -/
def unitPattern : Pattern := .rep (alnumOr "@._:-") 1 none

def unitName (value : String) : Except String String :=
  orRaise (!(startsWith "-" value || !matchesAll unitPattern value)) "invalid unit name" value

/-- Lower case, no type suffix, no instance. -/
def bareUnit (unit : String) : String :=
  let lower := lower unit
  let bare := (unitSuffixes.findSome? fun s => stripSuffix s lower).getD lower
  match splitOnce "@" bare with
  | some (template, _) => template
  | none => bare

def activatableUnit (value : String) : Except String String := do
  let unit ← unitName value
  let bare := bareUnit unit
  if rootShellUnits.contains bare then .error "that unit hands out a root shell"
  else if powerStateUnits.contains bare then .error "that unit changes the power state"
  else .ok unit

def stoppableUnit (value : String) : Except String String := do
  let unit ← unitName value
  let bare := bareUnit unit
  if protectedUnits.contains bare || (protectedUnitPrefixes.any fun p => startsWith p bare) then
    .error "that unit is protected from stop and restart"
  else .ok unit

/-- `[A-Za-z0-9/_.-]+` -/
def pathPattern : Pattern := .rep (alnumOr "/_.-") 1 none

def absolutePath (value : String) : Except String String :=
  if !startsWith "/" value || contains ".." value || decide (256 < value.length) then
    .error "invalid path"
  else orRaise (matchesAll pathPattern value) "invalid path" value

/-- `-?[1-9][0-9]{0,9}` -/
def pidPattern : Pattern :=
  .seq (.opt (.lit "-")) (.seq (.one fun c => c.isDigit && c != '0') (.rep Char.isDigit 0 (some 9)))

/-- `int` of a text that matches `pidPattern` -/
def pidOf (value : String) : ℤ :=
  match value.toList with
  | '-' :: digits => -(Nat.ofDigitChars 10 digits 0 : ℤ)
  | digits => Nat.ofDigitChars 10 digits 0

def killTarget (value : String) : Except String ℤ :=
  if !matchesAll pidPattern value then .error "invalid pid"
  else
    let target := pidOf value
    orRaise (decide (2 ≤ target.natAbs) && decide (target.natAbs ≤ 2 ^ 31 - 1))
      "pid and pgid -1, 0 and 1 are refused" target

/-- `[A-Za-z0-9_][A-Za-z0-9+_.-]{0,126}` -/
def lvmNamePattern : Pattern :=
  .seq (.one (alnumOr "_")) (.rep (alnumOr "+_.-") 0 (some 126))

def lvmName (value : String) : Except String String :=
  orRaise (matchesAll lvmNamePattern value) "invalid LVM name" value

/-- `\+?[0-9]+(\.[0-9]+)?[kKmMgGtTpP]?` -/
def lvmSizePattern : Pattern :=
  .seq (.opt (.lit "+")) (.seq (.rep Char.isDigit 1 none)
    (.seq (.opt (.seq (.lit ".") (.rep Char.isDigit 1 none)))
      (.opt (.one "kKmMgGtTpP".toList.contains))))

def lvmSize (value : String) : Except String String :=
  orRaise (!(decide (32 < value.length) || !matchesAll lvmSizePattern value)) "invalid LVM size"
    value

/-- `[A-Za-z0-9][A-Za-z0-9+._:=~-]{0,127}` -/
def packagePattern : Pattern :=
  .seq (.one (alnumOr "")) (.rep (alnumOr "+._:=~-") 0 (some 127))

def aptPackage (value operation : String) : Except String String :=
  orRaise (!(!matchesAll packagePattern value || endsWith ".deb" value || endsWith ".rpm" value ||
    endsWith "-" value || (operation != "install" && endsWith "+" value))) "invalid package name"
    value

def rpmPackage (value : String) : Except String String := aptPackage value "install"

/-- `[A-Za-z0-9._:/+@][A-Za-z0-9._:/+@-]{0,253}` -/
def safePattern : Pattern :=
  .seq (.one (alnumOr "._:/+@")) (.rep (alnumOr "._:/+@-") 0 (some 253))

def safe (value : String) : Except String String :=
  orRaise (matchesAll safePattern value) "invalid argument" value

/-- The loop of `rebase_ref` over the parts between colons. -/
def rebaseParts : String → List String → Except String Unit
  | _, [] => .ok ()
  | previous, part :: parts =>
    let lower := lower part
    if localImageTransports.contains lower || unverifiedImageTransports.contains lower ||
        startsWith "." part ||
        (startsWith "/" part && !(previous == "docker" && startsWith "//" part)) then
      .error "a rebase target must be a remote ref or a registry image"
    else rebaseParts lower parts

def rebaseRef (value : String) : Except String String := do
  let _ ← safe value
  rebaseParts "" (split ':' value)
  orRaise (!(contains ".." value || contains "@/" value))
    "a rebase target must be a remote ref or a registry image" value

/-- `[A-Za-z0-9._:/+@=,][A-Za-z0-9._:/+@=,-]*` -/
def kargPattern : Pattern :=
  .seq (.one (alnumOr "._:/+@=,")) (.rep (alnumOr "._:/+@=,-") 0 none)

def kargToken (value : String) : Except String String :=
  orRaise (!(decide (254 < value.length) || !matchesAll kargPattern value))
    "invalid kernel argument" value

/-- `key.replace("-", "_")` -/
def replaceHyphens (key : String) : String :=
  String.ofList (key.toList.map fun c => if c = '-' then '_' else c)

def kargNormalized (value : String) : String :=
  match splitOnce "=" (lower value) with
  | some (key, rest) => replaceHyphens key ++ "=" ++ rest
  | none => replaceHyphens (lower value)

def kargAppend (value : String) : Except String String := do
  let normal := kargNormalized (← kargToken value)
  let allowed :=
    match splitOnce "=" normal with
    | none => (kargFlags ++ kargHardeningFlags).contains normal
    | some (key, rest) =>
      (!rest.isEmpty && kargValueKeys.contains key) ||
        ((kargListValues.lookup key).any fun values => (split ',' rest).all values.contains) ||
        ((kargHardeningValues.lookup key).getD []).contains rest
  orRaise allowed "that kernel argument is not on the allowlist" value

def kargDelete (value : String) : Except String String := do
  let lower := kargNormalized (← kargToken value)
  let key := (split '=' lower).headD lower
  orRaise (kargWeakening.contains lower || kargFlags.contains key || kargValueKeys.contains key ||
    (kargListValues.lookup key).isSome)
    "refusing to delete a hardening or unknown kernel argument" value

/-- `[A-Za-z0-9_][A-Za-z0-9._-]{0,31}` -/
def usernamePattern : Pattern :=
  .seq (.one (alnumOr "_")) (.rep (alnumOr "._-") 0 (some 31))

def username (value : String) : Except String String :=
  orRaise (!(!matchesAll usernamePattern value || contains ".." value)) "invalid account name"
    value

def publicKey (value : String) : Except String String :=
  let types := ["ssh-rsa", "ssh-ed25519", "ssh-ed25519-sk", "ecdsa-sha2-nistp256",
    "ecdsa-sha2-nistp384", "ecdsa-sha2-nistp521", "sk-ssh-ed25519", "sk-ecdsa-sha2-nistp256"]
  orRaise (!(!(types.any fun t => startsWith t value) || decide (8192 < value.length) ||
    value.toList.any fun c => decide (c.toNat < 32) || decide (126 < c.toNat) ||
      "'|;`$\\&".toList.contains c)) "invalid public key" value

/-! ### Command lines -/

/-- The command line for `apt <subcommand> [<package>]`. -/
def aptArgv (values : List String) : Except String (List String) :=
  match values with
  | [verb] =>
    match aptBare.lookup verb with
    | some args => .ok (["/usr/bin/apt-get"] ++ aptExactNames ++ args)
    | none => .error "unsupported apt operation"
  | [verb, package] => do
    if aptWithPackage.contains verb then
      let package ← aptPackage package verb
      if ["hold", "unhold"].contains verb then
        .ok (["/usr/bin/apt-mark"] ++ aptExactNames ++ [verb, "--", package])
      else .ok (["/usr/bin/apt-get"] ++ aptExactNames ++ [verb, "-y", "--", package])
    else .error "unsupported apt operation"
  | _ => .error "unsupported apt operation"

/-- One pair of `kargs`. -/
def kargOption (op token : String) : Except String String :=
  if op = "append" then (kargAppend token).map ("--append=" ++ ·)
  else if op = "delete" then (kargDelete token).map ("--delete=" ++ ·)
  else .error "invalid kernel argument operation"

/-- The loop over the operands of `kargs`, two by two. -/
def kargOptions : List String → Except String (List String)
  | op :: token :: rest => do
    let option ← kargOption op token
    let options ← kargOptions rest
    .ok (option :: options)
  | _ => .ok []

/-- The command line for `rpm-ostree <verb> <operand>…`. -/
@[grind =]
def rpmOstreeArgv (values : List String) : Except String (List String) :=
  match values with
  | [] => .error "unsupported rpm-ostree operation"
  | verb :: operands =>
    if !rpmOstreeVerbs.contains verb then .error "unsupported rpm-ostree operation"
    else if verb = "install" ∧ operands ≠ [] then do
      .ok ([rpmOstree, "install", "--idempotent"] ++ (← operands.mapM rpmPackage))
    else if verb = "uninstall" ∧ operands ≠ [] then do
      .ok ([rpmOstree, "uninstall"] ++ (← operands.mapM rpmPackage))
    else if verb = "kargs" ∧ operands.length % 2 = 0 then do
      .ok ([rpmOstree, "kargs"] ++ (← kargOptions operands))
    else
      match verb, operands with
      | "replace", [old, new] => do
        let old ← rpmPackage old
        let new ← rpmPackage new
        .ok [rpmOstree, "install", new, "--uninstall", old]
      | "override-remove", [package] => do
        .ok [rpmOstree, "override", "remove", ← rpmPackage package]
      | "rebase", [target] => do .ok [rpmOstree, "rebase", ← rebaseRef target]
      | _, _ => .error "unsupported rpm-ostree operation or argument count"

/-- The loop over the options of `toolbox create`. -/
def toolboxOptions : List String → List String → Except String (List String)
  | seen, flag :: value :: rest => do
    if !(["--release", "--image"].contains flag) || seen.contains flag then
      .error "invalid toolbox option"
    else
      let value ← safe value
      let options ← toolboxOptions (flag :: seen) rest
      .ok (flag :: value :: options)
  | _, _ => .ok []

/-- The fixed beginnings of a `flatpak` command and the number of operands after each. -/
def flatpakPatterns : List (List String × ℕ) :=
  [(["install", "--user", "-y"], 2), (["uninstall", "--user", "-y"], 1),
    (["remotes", "--user", "--columns=name,url"], 0),
    (["remote-add", "--user", "--if-not-exists"], 2), (["remote-delete", "--user"], 1),
    (["list", "--user", "--app", "--columns=application,name,version,origin"], 0),
    (["update", "--user", "-y"], 0), (["update", "--user", "-y"], 1), (["info", "--user"], 1)]

/-- The command line of a tool that runs as the user. -/
def toolArgv (tool : String) (args : List String) : Except String (List String) :=
  match tool, args with
  | "podman", ["ps", "--all", "--format", "json"] =>
    .ok ["/usr/bin/podman", "ps", "--all", "--format", "json"]
  | "podman", ["create", "--name", name, image] => do
    .ok ["/usr/bin/podman", "create", "--name", ← safe name, ← safe image]
  | "podman", [verb, name] => do
    if ["start", "stop", "rm", "inspect"].contains verb then
      .ok ["/usr/bin/podman", verb, ← safe name]
    else .error "unsupported user operation"
  | "toolbox", ["list"] => .ok ["/usr/bin/toolbox", "list"]
  | "toolbox", ["rm", name] => do .ok ["/usr/bin/toolbox", "rm", ← safe name]
  | "toolbox", "create" :: "--container" :: name :: options => do
    if [0, 2, 4].contains options.length then
      .ok (["/usr/bin/toolbox", "create", "--container", ← safe name] ++
        (← toolboxOptions [] options))
    else .error "unsupported user operation"
  | "flatpak", args =>
    match flatpakPatterns.find? fun p => p.1.isPrefixOf args && args.length == p.1.length + p.2 with
    | some (start, _) => do
      .ok (["/usr/bin/flatpak"] ++ start ++ (← (args.drop start.length).mapM safe))
    | none => .error "unsupported user operation"
  | _, _ => .error "unsupported user operation"

/-- The loop over the options of `user-create`. -/
def userOptions : List String → List String → Except String (List String)
  | _, [] => .ok []
  | _, [_] => .error "invalid user option"
  | seen, flag :: value :: rest => do
    if seen.contains flag || !(["--home-dir", "--shell"].contains flag) then
      .error "invalid user option"
    else
      let value ← if flag = "--home-dir" then absolutePath value else safe value
      let options ← userOptions (flag :: seen) rest
      .ok (flag :: value :: options)

/-- `[0-9]{1,5}` -/
def daysPattern : Pattern := .rep Char.isDigit 1 (some 5)

/-- The loop over the options of `password-aging`. -/
def agingOptions : List String → List String → Except String (List String)
  | seen, flag :: days :: rest => do
    if !agingFlags.contains flag || seen.contains flag || !matchesAll daysPattern days then
      .error "invalid password-aging option"
    else
      let options ← agingOptions (flag :: seen) rest
      .ok (flag :: days :: options)
  | _, _ => .ok []

/-! ### Main -/

/-- What the helper does once its arguments are accepted. -/
inductive Step
  /-- Run a command with an environment; the helper fails if it does. -/
  | run (argv : List String) (env : List (String × String))
  /-- Refuse unless the package database knows exactly this package. -/
  | exactPackage (verb package : String)
  | kill (target : ℤ) (signal : String)
  /-- Copy the group into `/etc/group` if it is not there. -/
  | ensureLocalGroup (group : String)
  /-- Give up root for an account that must exist and not be root. -/
  | dropToUser (name : String)
  | editKey (name key : String) (add : Bool)
  /-- Become the command, with the user's environment. -/
  | execve (argv : List String)
  deriving DecidableEq, Repr

/-- No branch of `main` takes these arguments. -/
def unsupported : Except String (List Step) :=
  .error "unsupported operation or argument count"

def firewall : List String → Except String (List Step)
  | [zone, service, verb] => do
    if !(["add-service", "remove-service"].contains verb) then .error "invalid firewall operation"
    else
      let first := ["/usr/bin/firewall-cmd", "--permanent", "--zone=" ++ (← safe zone),
        "--" ++ verb ++ "=" ++ (← safe service)]
      .ok [.run first systemEnv, .run ["/usr/bin/firewall-cmd", "--reload"] systemEnv]
  | _ => unsupported

def snapInstallHold : List String → Except String (List Step)
  | [name, channel] => do
    let name ← safe name
    let channel ← safe channel
    .ok [.run ["/usr/bin/snap", "install", "--channel=" ++ channel, name] systemEnv,
      .run ["/usr/bin/snap", "refresh", "--hold", name] systemEnv]
  | _ => unsupported

def userCreate : List String → Except String (List Step)
  | name :: options => do
    if 4 < options.length then unsupported
    else
      let name ← username name
      let options ← userOptions [] options
      .ok [.run (["/usr/sbin/useradd", "--create-home"] ++ options ++ [name]) systemEnv]
  | _ => unsupported

/-- `user-lock` and `user-unlock` -/
def userLock (flag : String) : List String → Except String (List Step)
  | [name] => do
    let name ← username name
    if criticalAccounts.contains name then
      .error "refusing to change the lock on a critical system account"
    else .ok [.run ["/usr/sbin/usermod", flag, name] systemEnv]
  | _ => unsupported

def unitVerb : List String → Except String (List Step)
  | [verb, unit] => do
    if !activatingVerbs.contains verb && !quiescingVerbs.contains verb then
      .error "invalid unit operation"
    else
      let unit ← unitName unit
      let unit ← if activatingVerbs.contains verb then activatableUnit unit else .ok unit
      let unit ← if stoppingVerbs.contains verb then stoppableUnit unit else .ok unit
      .ok [.run ["/usr/bin/systemctl", verb, unit] systemEnv]
  | _ => unsupported

def sendSignal : List String → Except String (List Step)
  | [name, target] => do
    if !signals.contains name then .error "invalid signal"
    else .ok [.kill (← killTarget target) ("SIG" ++ name)]
  | _ => unsupported

def userDelete : List String → Except String (List Step)
  | [name] => do
    let name ← username name
    if criticalAccounts.contains name then .error "that account is protected"
    else .ok [.run ["/usr/sbin/userdel", name] systemEnv]
  | _ => unsupported

def groupCreate : List String → Except String (List Step)
  | [group] => do .ok [.run ["/usr/sbin/groupadd", ← username group] systemEnv]
  | ["--system", group] => do
    .ok [.run ["/usr/sbin/groupadd", "--system", ← username group] systemEnv]
  | _ => unsupported

def groupDelete : List String → Except String (List Step)
  | [group] => do
    let group ← username group
    if criticalGroups.contains group then .error "that group is protected"
    else .ok [.run ["/usr/sbin/groupdel", group] systemEnv]
  | _ => unsupported

def passwordAging : List String → Except String (List Step)
  | name :: options => do
    if !([2, 4, 6].contains options.length) then unsupported
    else
      let name ← username name
      let options ← agingOptions [] options
      .ok [.run (["/usr/bin/chage"] ++ options ++ [name]) systemEnv]
  | _ => unsupported

def lvExtend : List String → Except String (List Step)
  | [vg, lv, size] => do
    let size ← lvmSize size
    let vg ← lvmName vg
    let lv ← lvmName lv
    .ok [.run ["/usr/sbin/lvextend", "-L", size, "-r", vg ++ "/" ++ lv] systemEnv]
  | _ => unsupported

def lvCreate : List String → Except String (List Step)
  | [vg, name, size] => do
    let size ← lvmSize size
    let name ← lvmName name
    let vg ← lvmName vg
    .ok [.run ["/usr/sbin/lvcreate", "-L", size, "-n", name, vg] systemEnv]
  | _ => unsupported

def lvSnapshot : List String → Except String (List Step)
  | [vg, origin, snapshot, size] => do
    let size ← lvmSize size
    let snapshot ← lvmName snapshot
    let vg ← lvmName vg
    let origin ← lvmName origin
    .ok [.run ["/usr/sbin/lvcreate", "-s", "-L", size, "-n", snapshot, vg ++ "/" ++ origin]
      systemEnv]
  | _ => unsupported

def apt (values : List String) : Except String (List Step) := do
  let argv ← aptArgv values
  let lookup := match values with
    | [verb, package] => [.exactPackage verb package]
    | _ => []
  .ok (lookup ++ [.run argv aptEnv])

/-- `group-add` and `group-remove`; the command comes from the names. -/
def membership (command : String → String → List String) : List String → Except String (List Step)
  | [name, group] => do
    let name ← username name
    let group ← username group
    .ok [.ensureLocalGroup group, .run (command name group) systemEnv]
  | _ => unsupported

/-- `ssh-add` and `ssh-remove` -/
def authorizedKey (add : Bool) : List String → Except String (List Step)
  | [name, key] => do
    let key ← publicKey key
    let name ← username name
    .ok [.dropToUser name, .editKey name key add]
  | _ => unsupported

/-- `flatpak`, `podman` and `toolbox`, which run as the user. -/
def userTool (tool : String) : List String → Except String (List Step)
  | name :: parameter :: parameters => do
    let argv ← toolArgv tool (parameter :: parameters)
    let name ← username name
    .ok [.dropToUser name, .execve argv]
  | _ => unsupported

/-- The steps for an argument vector. -/
def main : List String → Except String (List Step)
  | [] => .error "operation required"
  | op :: values =>
    match op with
    | "firewall" => firewall values
    | "snap-install-hold" => snapInstallHold values
    | "user-create" => userCreate values
    | "user-lock" => userLock "--lock" values
    | "user-unlock" => userLock "--unlock" values
    | "unit" => unitVerb values
    | "signal" => sendSignal values
    | "user-delete" => userDelete values
    | "group-create" => groupCreate values
    | "group-delete" => groupDelete values
    | "password-aging" => passwordAging values
    | "lv-extend" => lvExtend values
    | "lv-create" => lvCreate values
    | "lv-snapshot" => lvSnapshot values
    | "apt" => apt values
    | "rpm-ostree" => do .ok [.run (← rpmOstreeArgv values) systemEnv]
    | "group-add" => membership (fun name group =>
        ["/usr/sbin/usermod", "--append", "--groups", group, name]) values
    | "group-remove" => membership (fun name group =>
        ["/usr/bin/gpasswd", "--delete", name, group]) values
    | "ssh-add" => authorizedKey true values
    | "ssh-remove" => authorizedKey false values
    | "flatpak" | "podman" | "toolbox" => userTool op values
    | _ => unsupported

section Dispatch

variable {values : List String}

@[simp]
theorem main_unit : main ("unit" :: values) = unitVerb values := rfl

@[simp]
theorem main_userCreate : main ("user-create" :: values) = userCreate values := rfl

@[simp]
theorem main_userLock : main ("user-lock" :: values) = userLock "--lock" values := rfl

@[simp]
theorem main_userUnlock : main ("user-unlock" :: values) = userLock "--unlock" values := rfl

@[simp]
theorem main_userDelete : main ("user-delete" :: values) = userDelete values := rfl

@[simp]
theorem main_groupCreate : main ("group-create" :: values) = groupCreate values := rfl

@[simp]
theorem main_groupDelete : main ("group-delete" :: values) = groupDelete values := rfl

@[simp]
theorem main_signal : main ("signal" :: values) = sendSignal values := rfl

@[simp]
theorem main_passwordAging : main ("password-aging" :: values) = passwordAging values := rfl

@[simp]
theorem main_lvExtend : main ("lv-extend" :: values) = lvExtend values := rfl

@[simp]
theorem main_lvCreate : main ("lv-create" :: values) = lvCreate values := rfl

@[simp]
theorem main_lvSnapshot : main ("lv-snapshot" :: values) = lvSnapshot values := rfl

@[simp]
theorem main_apt : main ("apt" :: values) = apt values := rfl

@[simp]
theorem main_sshAdd : main ("ssh-add" :: values) = authorizedKey true values := rfl

@[simp]
theorem main_sshRemove : main ("ssh-remove" :: values) = authorizedKey false values := rfl

@[simp]
theorem main_rpmOstree : main ("rpm-ostree" :: values) =
    (do .ok [.run (← rpmOstreeArgv values) systemEnv]) := rfl

@[simp]
theorem main_groupAdd : main ("group-add" :: values) = membership (fun name group =>
    ["/usr/sbin/usermod", "--append", "--groups", group, name]) values := rfl

@[simp]
theorem main_groupRemove : main ("group-remove" :: values) = membership (fun name group =>
    ["/usr/bin/gpasswd", "--delete", name, group]) values := rfl

end Dispatch

/-- The helper goes on with these arguments. -/
def Accepts (args : List String) : Prop := ∃ steps, main args = .ok steps

theorem accepts_apt {values : List String} :
    Accepts ("apt" :: values) ↔ ∃ argv, aptArgv values = .ok argv := by
  simp [Accepts, apt, bind_eq_ok_iff]

theorem accepts_rpmOstree {values : List String} :
    Accepts ("rpm-ostree" :: values) ↔ ∃ argv, rpmOstreeArgv values = .ok argv := by
  simp [Accepts, bind_eq_ok_iff]

end Sysknife.ActionSteps
