import Mathlib.Data.List.DropRight
import Sysknife.Actions
import Sysknife.Lib.Pattern

/-!
# Parameter validation in the daemon

The validators of `actions/validate.rs` and of `executor.rs` for the values that end up in the
command line of a packaging helper. A validator that refuses always answers
`InvalidParam` with the name of the parameter, so each is a check on the text (`usernameOk`, …)
wrapped by `checked`; the order of the conditions is the source's.

Lengths are in UTF-8 bytes, as `str::len` counts them. Kernel arguments are lower-cased after
their characters have been checked, so lower-casing is that of ASCII throughout.
-/

namespace Sysknife

open Text

/-- Hand the value back, or refuse the parameter. -/
def checked (ok : Bool) (s param : String) : Except ExecutorError String :=
  if ok then .ok s else .error (.invalidParam param)

theorem checked_eq_ok {ok : Bool} {s param t : String} :
    checked ok s param = .ok t ↔ ok = true ∧ t = s := by
  cases ok <;> simp [checked, eq_comm]

/-- Do all characters pass? -/
def allChars (p : Char → Bool) (s : String) : Bool := s.toList.all p

/-! ### Accounts and groups -/

def maxUsernameLen : ℕ := 32

/-- `[a-zA-Z0-9._-]`, 1 to 32 bytes, no leading `-` or `.`, no `..` -/
def usernameOk (s : String) : Bool :=
  !s.isEmpty && byteLen s ≤ maxUsernameLen && !startsWith "-" s && !startsWith "." s &&
    !contains ".." s && allChars (alnumOr "._-") s

def validatedUsername (s param : String) : Except ExecutorError String :=
  checked (usernameOk s) s param

theorem validatedUsername_eq_ok {s param t : String} :
    validatedUsername s param = .ok t ↔ usernameOk s = true ∧ t = s :=
  checked_eq_ok

/-- A group name follows the rules of a username. -/
def validatedGroup (s param : String) : Except ExecutorError String := validatedUsername s param

theorem validatedGroup_eq_ok {s param t : String} :
    validatedGroup s param = .ok t ↔ usernameOk s = true ∧ t = s :=
  checked_eq_ok

/-- Accounts that are never deleted or locked. -/
def criticalAccounts : List String := ["root", "daemon", "bin", "sys", "sudo", "adm"]

/-- Groups that are never deleted. -/
def criticalGroups : List String :=
  ["root", "sudo", "wheel", "adm", "sys", "daemon", "bin", "staff", "shadow", "disk"]

def validatedUsernameNotCritical (s param : String) : Except ExecutorError String :=
  checked (usernameOk s && !criticalAccounts.contains s) s param

theorem validatedUsernameNotCritical_eq_ok {s param t : String} :
    validatedUsernameNotCritical s param = .ok t ↔
      (usernameOk s && !criticalAccounts.contains s) = true ∧ t = s :=
  checked_eq_ok

def validatedGroupNotCritical (s param : String) : Except ExecutorError String :=
  checked (usernameOk s && !criticalGroups.contains s) s param

theorem validatedGroupNotCritical_eq_ok {s param t : String} :
    validatedGroupNotCritical s param = .ok t ↔
      (usernameOk s && !criticalGroups.contains s) = true ∧ t = s :=
  checked_eq_ok

/-! ### Units -/

/-- `[a-zA-Z0-9@._:-]+`, no leading `-` -/
def unitNameOk (s : String) : Bool :=
  !s.isEmpty && !startsWith "-" s && allChars (alnumOr "@._:-") s

def validatedUnitName (s param : String) : Except ExecutorError String :=
  checked (unitNameOk s) s param

theorem validatedUnitName_eq_ok {s param t : String} :
    validatedUnitName s param = .ok t ↔ unitNameOk s = true ∧ t = s :=
  checked_eq_ok

/-- Units that hand out a root shell when activated. -/
def rootShellUnits : List String := ["debug-shell", "emergency", "rescue", "runlevel1", "single"]

/-- Units whose activation changes the power state. -/
def powerStateUnits : List String :=
  ["reboot", "soft-reboot", "poweroff", "halt", "kexec", "ctrl-alt-del", "exit", "runlevel0",
    "runlevel6", "shutdown", "umount", "sleep", "suspend", "hibernate", "hybrid-sleep",
    "suspend-then-hibernate", "systemd-reboot", "systemd-soft-reboot", "systemd-poweroff",
    "systemd-halt", "systemd-kexec", "systemd-exit", "systemd-suspend", "systemd-hibernate",
    "systemd-hybrid-sleep", "systemd-suspend-then-hibernate"]

def unitTypeSuffixes : List String :=
  [".service", ".target", ".socket", ".mount", ".path", ".slice", ".scope"]

/-- A unit's name in lower case, without its type suffix and without its instance. -/
def bareUnitName (unit : String) : String :=
  let lower := lower unit
  let stripped := (unitTypeSuffixes.findSome? fun suffix => stripSuffix suffix lower).getD lower
  match splitOnce "@" stripped with
  | some (template, _) => template
  | none => stripped

/-- Units whose resource limits a medium-risk caller must not set, and that it must not stop. -/
def resourceLimitProtectedUnits : List String :=
  ["sysknife-daemon", "auditd", "systemd-journald", "rsyslog", "dbus", "dbus-broker", "polkit",
    "polkitd", "systemd-logind", "ssh", "sshd"]

def resourceLimitProtectedPrefixes : List String := ["systemd-journald", "auditd", "audit-rules"]

def isProtectedUnit (bare : String) : Bool :=
  resourceLimitProtectedUnits.contains bare ||
    resourceLimitProtectedPrefixes.any fun family => startsWith family bare

/-- A unit that an action will activate. -/
def activatableUnitOk (s : String) : Bool :=
  unitNameOk s &&
    !(rootShellUnits.contains (bareUnitName s) || powerStateUnits.contains (bareUnitName s))

/-- A unit that an action will stop. -/
def stoppableUnitOk (s : String) : Bool := unitNameOk s && !isProtectedUnit (bareUnitName s)

/-- A unit whose resource limits an action will set; slices and scopes are refused as a class. -/
def resourceLimitUnitOk (s : String) : Bool :=
  unitNameOk s && !(endsWith ".slice" (lower s) || endsWith ".scope" (lower s)) &&
    !isProtectedUnit (bareUnitName s)

def validatedActivatableUnit (s param : String) : Except ExecutorError String :=
  checked (activatableUnitOk s) s param

theorem validatedActivatableUnit_eq_ok {s param t : String} :
    validatedActivatableUnit s param = .ok t ↔ activatableUnitOk s = true ∧ t = s :=
  checked_eq_ok

def validatedStoppableUnit (s param : String) : Except ExecutorError String :=
  checked (stoppableUnitOk s) s param

theorem validatedStoppableUnit_eq_ok {s param t : String} :
    validatedStoppableUnit s param = .ok t ↔ stoppableUnitOk s = true ∧ t = s :=
  checked_eq_ok

def validatedResourceLimitUnit (s param : String) : Except ExecutorError String :=
  checked (resourceLimitUnitOk s) s param

/-! ### Safe arguments and references -/

def safeArgMaxBytes : ℕ := 254

/-- `[A-Za-z0-9._:/+@-]`, 1 to 254 bytes, no leading `-` -/
def safeArgOk (s : String) : Bool :=
  !s.isEmpty && byteLen s ≤ safeArgMaxBytes && !startsWith "-" s && allChars (alnumOr "._:/+@-") s

def validatedSafeArg (s param : String) : Except ExecutorError String :=
  checked (safeArgOk s) s param

/-- Image transports that read from this host. -/
def localImageTransports : List String :=
  ["oci", "oci-archive", "dir", "docker-archive", "docker-daemon", "containers-storage", "ostree",
    "sif", "tarball", "file"]

/-- Image transports that skip signature verification. -/
def unverifiedImageTransports : List String :=
  ["ostree-unverified-registry", "ostree-unverified-image"]

/-- The loop over the parts of a rebase target; `previous` is the part before, in lower case. -/
def rebasePartsOk : String → List String → Bool
  | _, [] => true
  | previous, part :: parts =>
    let lower := lower part
    let localPath := startsWith "/" part && !(previous == "docker" && startsWith "//" part)
    !(localImageTransports.contains lower || unverifiedImageTransports.contains lower ||
        startsWith "." part || localPath) &&
      rebasePartsOk lower parts

/-- A remote ref or a registry image. -/
def rebaseRefOk (s : String) : Bool :=
  safeArgOk s && rebasePartsOk "" (split ':' s) && !(contains ".." s || contains "@/" s)

def validatedRebaseRef (s param : String) : Except ExecutorError String :=
  checked (rebaseRefOk s) s param

theorem validatedRebaseRef_eq_ok {s param t : String} :
    validatedRebaseRef s param = .ok t ↔ rebaseRefOk s = true ∧ t = s :=
  checked_eq_ok

/-! ### Packages -/

def maxAptPackageLen : ℕ := 128

/-- A package to install or remove: no path, no local file, no option, no trailing `-`. -/
def installPackageOk (s : String) : Bool :=
  let firstOk := s.toList.head?.any Char.isAlphanum
  let charsetOk := allChars (alnumOr "+._:=~-") s
  !s.isEmpty && byteLen s ≤ maxAptPackageLen && firstOk && charsetOk && !contains "/" s &&
    !endsWith ".deb" s && !endsWith ".rpm" s && !endsWith "-" s

def validatedInstallPackage (s param : String) : Except ExecutorError String :=
  checked (installPackageOk s) s param

theorem validatedInstallPackage_eq_ok {s param t : String} :
    validatedInstallPackage s param = .ok t ↔ installPackageOk s = true ∧ t = s :=
  checked_eq_ok

/-- A package to remove, purge, hold or unhold: no trailing `+` either. -/
def validatedUnmodifiedPackage (s param : String) : Except ExecutorError String :=
  checked (installPackageOk s && !endsWith "+" s) s param

theorem validatedUnmodifiedPackage_eq_ok {s param t : String} :
    validatedUnmodifiedPackage s param = .ok t ↔
      (installPackageOk s && !endsWith "+" s) = true ∧ t = s :=
  checked_eq_ok

/-! ### Logical volumes -/

def maxLvmNameLen : ℕ := 127

def maxLvmSizeLen : ℕ := 32

/-- `[a-zA-Z0-9+_.-]`, 1 to 127 bytes, beginning with a letter, a digit or `_` -/
def lvmNameOk (s : String) : Bool :=
  !s.isEmpty && byteLen s ≤ maxLvmNameLen &&
    (s.toList.head?.any fun c => c.isAlphanum || c == '_') && allChars (alnumOr "+_.-") s

def validatedLvmName (s param : String) : Except ExecutorError String :=
  checked (lvmNameOk s) s param

theorem validatedLvmName_eq_ok {s param t : String} :
    validatedLvmName s param = .ok t ↔ lvmNameOk s = true ∧ t = s :=
  checked_eq_ok

/-- `[+]<digits>[.<digits>][kmgtp]` -/
def lvmSizeOk (s : String) : Bool :=
  let body := ((stripStart "+" s).getD s).toList
  let suffix := body.getLast?.filter Char.isAlpha
  let digits := if suffix.isSome then body.dropLast else body
  byteLen s ≤ maxLvmSizeLen && suffix.all "kKmMgGtTpP".toList.contains &&
    !(digits.isEmpty || decide (1 < digits.count '.') ||
      !digits.all (fun c => c.isDigit || c == '.') ||
      digits.head? == some '.' || digits.getLast? == some '.')

def validatedLvmSize (s param : String) : Except ExecutorError String :=
  checked (lvmSizeOk s) s param

theorem validatedLvmSize_eq_ok {s param t : String} :
    validatedLvmSize s param = .ok t ↔ lvmSizeOk s = true ∧ t = s :=
  checked_eq_ok

/-! ### Mounts and swap -/

def maxFstabFieldLen : ℕ := 256

def fstypeAllow : List String :=
  ["ext4", "ext3", "ext2", "xfs", "btrfs", "vfat", "exfat", "ntfs3", "nfs", "nfs4", "cifs"]

def criticalMountpoints : List String :=
  ["/", "/boot", "/boot/efi", "/etc", "/usr", "/bin", "/sbin", "/lib", "/lib64", "/var", "/home",
    "/root", "/proc", "/sys", "/dev", "/run"]

/-- `char::is_ascii_hexdigit` -/
def isHexDigit (c : Char) : Bool :=
  c.isDigit || (decide ('a' ≤ c) && decide (c ≤ 'f')) || (decide ('A' ≤ c) && decide (c ≤ 'F'))

/-- A `/dev/…` node, `UUID=…`, `LABEL=…`, `//host/share` or `host:/export`. -/
def mountDeviceOk (s : String) : Bool :=
  let devLike := (stripStart "/dev/" s).any (allChars (alnumOr "/_.-"))
  let uuid := (stripStart "UUID=" s).any fun u =>
    8 ≤ byteLen u && allChars (fun c => isHexDigit c || c == '-') u
  let label := (stripStart "LABEL=" s).any fun l => !l.isEmpty && allChars (alnumOr "_.:-") l
  let cifs := startsWith "//" s && decide (3 ≤ s.toList.count '/') && allChars (alnumOr "/._-") s
  let nfs :=
    match splitOnce ":/" s with
    | some (host, _) => !host.isEmpty && !startsWith "/" host && allChars (alnumOr ":/._-") s
    | none => false
  !(s.isEmpty || decide (maxFstabFieldLen < byteLen s) || startsWith "-" s || contains ".." s) &&
    (devLike || uuid || label || cifs || nfs)

def validatedMountDevice (s param : String) : Except ExecutorError String :=
  checked (mountDeviceOk s) s param

theorem validatedMountDevice_eq_ok {s param t : String} :
    validatedMountDevice s param = .ok t ↔ mountDeviceOk s = true ∧ t = s :=
  checked_eq_ok

/-- Absolute, not too long, no `..`, `[A-Za-z0-9/_.-]` -/
def absolutePathOk (maxLen : ℕ) (s : String) : Bool :=
  startsWith "/" s && byteLen s ≤ maxLen && !contains ".." s && allChars (alnumOr "/_.-") s

def validatedHomeDir (s param : String) : Except ExecutorError String :=
  checked (absolutePathOk maxFstabFieldLen s) s param

def validatedMountPoint (s param : String) : Except ExecutorError String :=
  checked (absolutePathOk maxFstabFieldLen s && !criticalMountpoints.contains s) s param

theorem validatedMountPoint_eq_ok {s param t : String} :
    validatedMountPoint s param = .ok t ↔
      (absolutePathOk maxFstabFieldLen s && !criticalMountpoints.contains s) = true ∧ t = s :=
  checked_eq_ok

def validatedSwapPath (s param : String) : Except ExecutorError String :=
  checked (absolutePathOk maxFstabFieldLen s) s param

theorem validatedSwapPath_eq_ok {s param t : String} :
    validatedSwapPath s param = .ok t ↔ absolutePathOk maxFstabFieldLen s = true ∧ t = s :=
  checked_eq_ok

def validatedFstype (s param : String) : Except ExecutorError String :=
  checked (fstypeAllow.contains s) s param

theorem validatedFstype_eq_ok {s param t : String} :
    validatedFstype s param = .ok t ↔ fstypeAllow.contains s = true ∧ t = s :=
  checked_eq_ok

def mountOptionsDeny : List String := ["suid", "dev"]

/-- The options a mount is made with: the requested ones, with `nosuid` and `nodev` added
where they are missing. -/
def hardenedMountOptions (requested : String) : String :=
  let harden (out : List String) (required : String) : List String :=
    if out.any fun o => lower o == required then out else out ++ [required]
  let out := (split ',' requested).filter fun o => !o.isEmpty
  String.intercalate "," (["nosuid", "nodev"].foldl harden out)

def mountOptionsOk (s : String) : Bool :=
  byteLen s ≤ maxFstabFieldLen && allChars (alnumOr "=,._:@/+-") s &&
    !(split ',' s).any fun opt => mountOptionsDeny.contains (lower opt)

def validatedMountOptions (s param : String) : Except ExecutorError String :=
  (checked (mountOptionsOk s) s param).map hardenedMountOptions

/-! ### Sudoers grants -/

def maxSudoersNameLen : ℕ := 64

def maxSudoCommandsLen : ℕ := 1024

/-- `^[a-z0-9][a-z0-9_-]{0,63}$` -/
def sudoersNameOk (s : String) : Bool :=
  !s.isEmpty && byteLen s ≤ maxSudoersNameLen &&
    (s.toList.head?.any fun c => c.isLower || c.isDigit) && allChars (lowerAlnumOr "_-") s

def validatedSudoersName (s param : String) : Except ExecutorError String :=
  checked (sudoersNameOk s) s param

theorem validatedSudoersName_eq_ok {s param t : String} :
    validatedSudoersName s param = .ok t ↔ sudoersNameOk s = true ∧ t = s :=
  checked_eq_ok

/-- The nonempty pieces of a comma-separated list. -/
def commaPieces (s : String) : List String := (split ',' s).filter fun c => !c.isEmpty

def sudoCommandOk (c : String) : Bool :=
  startsWith "/" c && !contains ".." c && !contains "*" c && allChars (alnumOr "/._-") c

/-- The literal `ALL`, or a comma-separated list of absolute paths. -/
def sudoCommandsOk (s : String) : Bool :=
  s == "ALL" ||
    (!s.isEmpty && byteLen s ≤ maxSudoCommandsLen && (commaPieces s).all sudoCommandOk &&
      !(commaPieces s).isEmpty)

def validatedSudoCommands (s param : String) : Except ExecutorError String :=
  checked (sudoCommandsOk s) s param

theorem validatedSudoCommands_eq_ok {s param t : String} :
    validatedSudoCommands s param = .ok t ↔ sudoCommandsOk s = true ∧ t = s :=
  checked_eq_ok

/-- Programs that hand back a shell or run an arbitrary command. -/
def shellEquivalentCommands : List String :=
  ["sh", "bash", "rbash", "dash", "ash", "zsh", "ksh", "ksh93", "mksh", "csh", "tcsh", "fish",
    "busybox", "pwsh", "powershell", "su", "sudo", "sudoedit", "doas", "runuser", "pkexec",
    "setpriv", "chroot", "unshare", "nsenter", "capsh", "python", "python2", "python3", "perl",
    "perl5", "ruby", "irb", "lua", "luac", "node", "nodejs", "php", "tclsh", "wish", "expect",
    "gdb", "julia", "guile", "rscript", "awk", "gawk", "mawk", "nawk", "sed", "ed", "vi", "vim",
    "vimdiff", "view", "ex", "nvim", "emacs", "nano", "less", "more", "most", "man", "pg", "info",
    "env", "nice", "ionice", "taskset", "stdbuf", "setarch", "timeout", "watch", "flock", "xargs",
    "find", "script", "scriptreplay", "socat", "nc", "ncat", "netcat", "tar", "cpio", "zip",
    "unzip", "rsync", "scp", "sftp", "ftp", "ssh", "tmux", "screen", "byobu", "make", "cmake",
    "strace", "ltrace", "tcpdump", "docker", "podman", "git", "crontab", "at", "systemctl",
    "journalctl", "apt", "apt-get", "dpkg", "rpm", "yum", "dnf", "zypper", "pip", "pip3", "gem",
    "npm", "mount"]

def shellEquivalentSuffixes : List String := [".basic", ".tiny"]

/-- A command's base name without a packaging suffix and without its version. -/
def unversionedCommandName (base : String) : String :=
  let base := (shellEquivalentSuffixes.findSome? fun suffix => stripSuffix suffix base).getD base
  String.ofList (base.toList.rdropWhile fun c => c.isDigit || c == '.')

/-- The last component of a path. -/
def lastComponent (c : String) : String := (split '/' c).getLastD c

/-- The first command of a list that makes it as good as `ALL`. -/
def shellEquivalentSudoCommand (commands : String) : Option String :=
  if commands == "ALL" then none
  else (commaPieces commands).find? fun c =>
    let base := lower (lastComponent c)
    shellEquivalentCommands.contains base ||
      shellEquivalentCommands.contains (unversionedCommandName base)

/-! ### Logs -/

def logRoot : String := "/var/log/"

def maxAbsolutePathLen : ℕ := 255

def maxSyslogHostLen : ℕ := 255

/-- Under the log root, no `..`, `[A-Za-z0-9/._*-]` -/
def logPathOk (s : String) : Bool :=
  startsWith logRoot s && byteLen s ≤ maxAbsolutePathLen && !contains ".." s &&
    allChars (alnumOr "/._*-") s

def logEvidenceDirs : List String := ["/var/log", "/var/log/audit", "/var/log/journal"]

/-- Does the target end in a bare wildcard over the log evidence? -/
def logGlobSweepsEvidence (path : String) : Bool :=
  let parts := (split '/' path).filter fun p => !p.isEmpty && p != "."
  match parts.getLast? with
  | none => false
  | some last =>
    let parent := parts.dropLast
    allChars (· == '*') last &&
      (logEvidenceDirs.contains ("/" ++ String.intercalate "/" parent) ||
        parent.any fun p => contains "*" p)

/-- A rotation target together with its rotate count. -/
def validatedLogRotation (path : String) (rotate : ℕ) : Except ExecutorError String := do
  let path ← checked (logPathOk path) path "path"
  let path ← checked (!logGlobSweepsEvidence path) path "path"
  checked (!(contains "*" path && rotate == 0)) path "rotate"

def syslogHostOk (s : String) : Bool :=
  !s.isEmpty && byteLen s ≤ maxSyslogHostLen && !contains ".." s && !startsWith "-" s &&
    allChars (alnumOr ".:_-") s

def validatedSyslogHost (s param : String) : Except ExecutorError String :=
  checked (syslogHostOk s) s param

theorem validatedSyslogHost_eq_ok {s param t : String} :
    validatedSyslogHost s param = .ok t ↔ syslogHostOk s = true ∧ t = s :=
  checked_eq_ok

/-! ### Keys -/

def publicKeyMaxLen : ℕ := 8192

def allowedKeyTypes : List String :=
  ["ssh-rsa", "ssh-ed25519", "ssh-ed25519-sk", "ecdsa-sha2-nistp256", "ecdsa-sha2-nistp384",
    "ecdsa-sha2-nistp521", "sk-ssh-ed25519", "sk-ecdsa-sha2-nistp256"]

/-- `char::is_ascii_control` -/
def isAsciiControl (c : Char) : Bool := decide (c.toNat < 32) || c.toNat == 127

/-- A known key type in front, printable ASCII, no shell metacharacter. -/
def publicKeyOk (s : String) : Bool :=
  !(s.isEmpty || decide (publicKeyMaxLen < byteLen s)) &&
    (allowedKeyTypes.any fun p => startsWith p s) &&
    !(s.toList.any fun c => "\n\r'|;`$\\&".toList.contains c || !decide (c.toNat < 128) ||
      isAsciiControl c)

def validatedPublicKey (s : String) : Except ExecutorError String :=
  checked (publicKeyOk s) s "public_key"

theorem validatedPublicKey_eq_ok {s t : String} :
    validatedPublicKey s = .ok t ↔ publicKeyOk s = true ∧ t = s :=
  checked_eq_ok

/-! ### Kernel arguments -/

/-- Ordinary switches; they may be removed. -/
def kargFlags : List String :=
  ["quiet", "splash", "rhgb", "nomodeset", "nowatchdog", "threadirqs"]

/-- Hardening switches; added, never removed. -/
def kargHardeningFlags : List String := ["nosmt", "slab_nomerge"]

/-- Ordinary keys that take any value. -/
def kargValueKeys : List String :=
  ["console", "video", "loglevel", "hugepages", "hugepagesz", "default_hugepagesz",
    "nvme_core.default_ps_max_latency_us", "usbcore.autosuspend", "nvidia_drm.modeset",
    "nvidia_drm.fbdev", "i915.enable_psr", "amdgpu.dc", "acpi_backlight", "mem_sleep_default",
    "pcie_aspm", "transparent_hugepage", "zswap.enabled", "systemd.show_status",
    "plymouth.enable"]

/-- Ordinary keys whose value is a list from a set of their own. -/
def kargListValues : List (String × List String) :=
  [("rd.driver.blacklist",
    ["nouveau", "nvidia", "nvidia_drm", "nvidia_modeset", "radeon", "amdgpu", "i915"])]

/-- Hardening keys with the only values that may be added. -/
def kargHardeningValues : List (String × List String) :=
  [("lockdown", ["integrity", "confidentiality"]), ("module.sig_enforce", ["1"]),
    ("intel_iommu", ["on"]), ("amd_iommu", ["force_isolation"]), ("init_on_alloc", ["1"]),
    ("init_on_free", ["1"]), ("page_alloc.shuffle", ["1"]), ("randomize_kstack_offset", ["on"]),
    ("mitigations", ["auto", "auto,nosmt"]), ("pti", ["on"]), ("vsyscall", ["none"]),
    ("debugfs", ["off"])]

/-- Exact downgrades: removing one hardens the host. -/
def kargWeakening : List String :=
  ["selinux=0", "enforcing=0", "apparmor=0", "lockdown=none", "debugfs=on", "iommu=off",
    "intel_iommu=off", "nokaslr", "nopti", "nosmap", "nosmep", "nospectre_v1", "nospectre_v2",
    "nospec_store_bypass_disable", "nospectre_bhb", "single", "emergency", "rescue", "rd.break",
    "rd.shell", "systemd.debug_shell", "init=/bin/sh", "init=/bin/bash", "mitigations=off",
    "pti=off", "audit=0", "module.sig_enforce=0", "init_on_alloc=0", "init_on_free=0",
    "page_alloc.shuffle=0", "randomize_kstack_offset=off", "spectre_v2=off",
    "spec_store_bypass_disable=off", "mds=off", "tsx_async_abort=off", "mmio_stale_data=off",
    "retbleed=off", "srbds=off", "l1tf=off", "spectre_bhi=off", "gather_data_sampling=off",
    "reg_file_data_sampling=off"]

/-- `-` read as `_` -/
def underscored (s : String) : String :=
  String.ofList (s.toList.map fun c => if c = '-' then '_' else c)

/-- Lower case, with `-` read as `_` in the key. -/
def normalizedKernelArg (arg : String) : String :=
  let lower := lower arg
  match splitOnce "=" lower with
  | some (key, value) => underscored key ++ "=" ++ value
  | none => underscored lower

/-- Exactly one token of the kernel command line. -/
def kernelArgTokenOk (arg : String) : Bool :=
  !(arg.isEmpty || decide (safeArgMaxBytes < byteLen arg)) && !startsWith "-" arg &&
    allChars (alnumOr "._:/+@-=,") arg

/-- A kernel argument that may be added. -/
def safeKernelArgOk (arg : String) : Bool :=
  let normal := normalizedKernelArg arg
  kernelArgTokenOk arg &&
    match splitOnce "=" normal with
    | none => kargFlags.contains normal || kargHardeningFlags.contains normal
    | some (key, value) =>
      (!value.isEmpty && kargValueKeys.contains key) ||
        (kargListValues.any fun entry =>
          entry.1 == key && (split ',' value).all fun v => entry.2.contains v) ||
        kargHardeningValues.any fun entry => entry.1 == key && entry.2.contains value

/-- A kernel argument that may be removed. -/
def safeKernelArgRemovalOk (arg : String) : Bool :=
  let normal := normalizedKernelArg arg
  let key := (split '=' normal).headD normal
  kernelArgTokenOk arg &&
    (kargWeakening.contains normal || kargFlags.contains key || kargValueKeys.contains key ||
      kargListValues.any fun entry => entry.1 == key)

def validatedSafeKernelArg (arg param : String) : Except ExecutorError String :=
  checked (safeKernelArgOk arg) arg param

theorem validatedSafeKernelArg_eq_ok {arg param t : String} :
    validatedSafeKernelArg arg param = .ok t ↔ safeKernelArgOk arg = true ∧ t = arg :=
  checked_eq_ok

def validatedSafeKernelArgRemoval (arg param : String) : Except ExecutorError String :=
  checked (safeKernelArgRemovalOk arg) arg param

theorem validatedSafeKernelArgRemoval_eq_ok {arg param t : String} :
    validatedSafeKernelArgRemoval arg param = .ok t ↔ safeKernelArgRemovalOk arg = true ∧ t = arg :=
  checked_eq_ok

/-! ### Numbers -/

theorem toList_toString (n : ℕ) : (toString n).toList = Nat.toDigits 10 n := by
  rw [Nat.toString_eq_repr, Nat.toList_repr]

theorem isDigit_of_mem_toString {n : ℕ} {c : Char} (hc : c ∈ (toString n).toList) :
    c.isDigit = true := by
  rw [toList_toString] at hc
  exact Nat.isDigit_of_mem_toDigits (by decide) (by decide) hc

theorem isWhitespace_of_isDigit {c : Char} (h : c.isDigit = true) : isWhitespace c = false := by
  have hlow : 48 ≤ c.toNat ∧ c.toNat ≤ 57 := by
    simpa [Char.isDigit, UInt32.le_iff_toNat_le] using h
  simp only [isWhitespace, Bool.or_eq_false_iff, Bool.and_eq_false_iff, decide_eq_false_iff_not,
    beq_eq_false_iff_ne]
  omega

/-- `str::parse::<u32>`, which accepts a leading plus. -/
def parseU32 (s : String) : Option ℕ :=
  let digits := match s.toList with
    | '+' :: digits => digits
    | digits => digits
  if digits ≠ [] ∧ digits.all Char.isDigit ∧ Nat.ofDigitChars 10 digits 0 < 2 ^ 32 then
    some (Nat.ofDigitChars 10 digits 0)
  else none

theorem parseU32_toString_eq (n : ℕ) :
    parseU32 (toString n) = if n < 2 ^ 32 then some n else none := by
  have hdigit : ∀ c ∈ Nat.toDigits 10 n, c.isDigit = true := fun c hc =>
    Nat.isDigit_of_mem_toDigits (by decide) (by decide) hc
  have hvalue : Nat.ofDigitChars 10 (Nat.toDigits 10 n) 0 = n :=
    Nat.ofDigitChars_toDigits (by decide) (by decide)
  have hplus : ∀ rest, Nat.toDigits 10 n ≠ '+' :: rest := fun rest heq =>
    absurd (hdigit '+' (heq ▸ List.mem_cons_self)) (by decide)
  rw [parseU32, toList_toString]
  have hdigits : (match Nat.toDigits 10 n with
      | '+' :: digits => digits
      | digits => digits) = Nat.toDigits 10 n := by
    split
    · exact absurd ‹_› (hplus _)
    · rfl
  rw [hdigits, hvalue]
  by_cases h : n < 2 ^ 32
  · rw [if_pos ⟨Nat.toDigits_ne_nil, List.all_eq_true.mpr hdigit, h⟩, if_pos h]
  · rw [if_neg fun hall => h hall.2.2, if_neg h]

theorem parseU32_toString {n : ℕ} (h : n < 2 ^ 32) : parseU32 (toString n) = some n := by
  rw [parseU32_toString_eq, if_pos h]

/-! ### Signals -/

/-- A text without the white space around it. -/
def trim (s : String) : String :=
  String.ofList ((s.toList.dropWhile isWhitespace).rdropWhile isWhitespace)

/-- The signals that may be sent, in any case and with or without `SIG`. -/
def validatedKillSignal (s : String) : Except ExecutorError String :=
  let normalized := String.ofList ((trim s).toList.map Char.toUpper)
  let name := (stripStart "SIG" normalized).getD normalized
  checked (["TERM", "KILL", "HUP", "INT"].contains name) name "signal"

end Sysknife
