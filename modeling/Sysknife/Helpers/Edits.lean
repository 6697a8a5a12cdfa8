import Mathlib.Data.List.DropRight
import Sysknife.Helpers.ActionSteps

/-!
# The file-editing helpers

`mount-edit`, `sudoers-edit` and `log-edit`: how each reads its command line (`argparse`), which
values it takes, and the request it then carries out. A refused command line is an error with
the text of `die`, less the value the text quotes.

* `Parser.parseArgs` reads options written out in full with their value as the next argument,
  the form the daemon uses. The abbreviations and the `--option=value` spelling that `argparse`
  also takes are refused here; they only matter for what may not stand as a value.
* `Paths` is what the host says about a path: where it resolves to and whether it is a symbolic
  link. `mount-edit` looks at both before it does anything.
-/

namespace Sysknife

open Text
open ActionSteps (orRaise matchesAll)

/-! ### Command lines -/

/-- The options of a helper: those with a value, each with the check `argparse` makes on it,
and those without. -/
structure Parser where
  valued : List (String × (String → Bool))
  switches : List String

namespace Parser

/-- The options by name; `-h` and `--help` are always among them. -/
def options (p : Parser) : List String := ["-h", "--help"] ++ p.valued.map Prod.fst ++ p.switches

/-- `-?[0-9]+` or `-?[0-9]*\.[0-9]+`, with the minus sign. -/
def negativeNumber : Pattern :=
  .seq (.lit "-") (.alt (.rep Char.isDigit 1 none)
    (.seq (.rep Char.isDigit 0 none) (.seq (.lit ".") (.rep Char.isDigit 1 none))))

/-- Does `argparse` take the argument for an option? Then it is nobody's value. -/
def isOption (p : Parser) (arg : String) : Bool :=
  let name := ((splitOnce "=" arg).map Prod.fst).getD arg
  startsWith "-" arg && arg != "-" &&
    (startsWith "-h" arg || (p.options.any fun o => startsWith name o) ||
      !(matchesAll negativeNumber arg || contains " " arg))

/-- The values given, the latest first. -/
def parse (p : Parser) : List (String × String) → List String →
    Except String (List (String × String))
  | given, [] => .ok given
  | given, [flag] =>
    if p.switches.contains flag then .ok ((flag, "") :: given) else .error "usage"
  | given, flag :: value :: rest =>
    if p.switches.contains flag then p.parse ((flag, "") :: given) (value :: rest)
    else
      match p.valued.lookup flag with
      | none => .error "usage"
      | some check =>
        if p.isOption value || !check value then .error "usage"
        else p.parse ((flag, value) :: given) rest

/-- `parse_args` -/
def parseArgs (p : Parser) (argv : List String) : Except String (List (String × String)) :=
  p.parse [] argv

theorem isOption_eq_false {p : Parser} {v : String} (h : startsWith "-" v = false) :
    p.isOption v = false := by
  simp [isOption, h]

theorem parse_nil {p : Parser} {given : List (String × String)} :
    p.parse given [] = .ok given := by
  rw [parse]

theorem parse_value {p : Parser} {given : List (String × String)} {flag value : String}
    {rest : List String} {check : String → Bool} (hswitch : p.switches.contains flag = false)
    (hflag : p.valued.lookup flag = some check) (hvalue : startsWith "-" value = false)
    (hcheck : check value = true) :
    p.parse given (flag :: value :: rest) = p.parse ((flag, value) :: given) rest := by
  rw [parse, hswitch, hflag, isOption_eq_false hvalue]
  simp [hcheck]

theorem parse_switch {p : Parser} {given : List (String × String)} {flag : String}
    (h : p.switches.contains flag = true) : p.parse given [flag] = .ok ((flag, "") :: given) := by
  rw [parse, if_pos h]

end Parser

/-- A value that is given and not empty. -/
def given (args : List (String × String)) (flag : String) : Option String :=
  (args.lookup flag).filter fun v => !v.isEmpty

/-- `int` of a decimal number. -/
def intOf (value : String) : Option ℤ :=
  let digits := ((stripStart "-" value).getD value).toList
  if digits.isEmpty || !digits.all Char.isDigit then none
  else
    let n : ℤ := Nat.ofDigitChars 10 digits 0
    some (if startsWith "-" value then -n else n)

/-- Any text. -/
def anyText (_ : String) : Bool := true

/-- A text `int` takes. -/
def anyInt (value : String) : Bool := (intOf value).isSome

/-! ### Paths -/

/-- What the host says about paths. -/
structure Paths where
  realpath : String → String
  islink : String → Bool

/-- One component of `os.path.normpath`; `acc` has the components so far, the last one first. -/
def normStep (initial : ℕ) (acc : List String) (comp : String) : List String :=
  if comp = "" ∨ comp = "." then acc
  else if comp ≠ ".." ∨ (initial = 0 ∧ acc = []) ∨ acc.head? = some ".." then comp :: acc
  else acc.tail

/-- The slashes a normalised path begins with; two stay two, more become one. -/
def initialSlashes (path : String) : ℕ :=
  if startsWith "//" path && !startsWith "///" path then 2
  else if startsWith "/" path then 1
  else 0

/-- `os.path.normpath` -/
def normpath (path : String) : String :=
  let comps := ((split '/' path).foldl (normStep (initialSlashes path)) []).reverse
  let path := String.ofList (List.replicate (initialSlashes path) '/') ++
    String.intercalate "/" comps
  if path.isEmpty then "." else path

/-! ### Mounts and swap -/

namespace MountEdit

def fstypeAllow : List String :=
  ["ext4", "ext3", "ext2", "xfs", "btrfs", "vfat", "exfat", "ntfs3", "nfs", "nfs4", "cifs"]

def criticalMountpoints : List String :=
  ["/", "/boot", "/boot/efi", "/etc", "/usr", "/bin", "/sbin", "/lib", "/lib64", "/var", "/home",
    "/root", "/proc", "/sys", "/dev", "/run"]

/-- `[0-9A-Fa-f-]` -/
def hexOrHyphen (c : Char) : Bool :=
  c.isDigit || "ABCDEFabcdef-".toList.contains c

/-- `/dev/…`, `UUID=…`, `LABEL=…`, `//host/share` or `host:/export`. -/
def devicePattern : Pattern :=
  .alt (.seq (.lit "/dev/") (.rep (alnumOr "/_.-") 1 none))
    (.alt (.seq (.lit "UUID=") (.rep hexOrHyphen 8 none))
      (.alt (.seq (.lit "LABEL=") (.rep (alnumOr "_.:-") 1 none))
        (.alt (.seq (.lit "//") (.seq (.rep (alnumOr "._-") 1 none)
            (.seq (.lit "/") (.rep (alnumOr "._/$-") 1 none))))
          (.seq (.rep (alnumOr "._-") 1 none) (.seq (.lit ":/") (.rep (alnumOr "._/-") 0 none))))))

/-- `/[A-Za-z0-9/_.-]*` -/
def mountpointPattern : Pattern := .seq (.lit "/") (.rep (alnumOr "/_.-") 0 none)

/-- `[A-Za-z0-9=,._:@/+-]*` -/
def optionsPattern : Pattern := .rep (alnumOr "=,._:@/+-") 0 none

def validMountpoint (mp : String) : Bool :=
  matchesAll mountpointPattern mp && !contains ".." mp && !criticalMountpoints.contains mp &&
    mp != ""

def denyMountOptions : List String := ["suid", "dev"]

/-- Add `nosuid` and `nodev` unless they are there. -/
def ensureHardened (options : String) : String :=
  let harden (opts : List String) (required : String) : List String :=
    if opts.any fun o => lower o == required then opts else opts ++ [required]
  let opts := (split ',' options).filter fun o => !o.isEmpty
  String.intercalate "," (["nosuid", "nodev"].foldl harden opts)

/-- Add `nofail` unless it is there; no options at all are the defaults. -/
def ensureNofail (options : String) : String :=
  let opts := (split ',' options).filter fun o => !o.isEmpty
  let opts := if opts.isEmpty then ["defaults"] else opts
  String.intercalate "," (if opts.contains "nofail" then opts else opts ++ ["nofail"])

/-- What `mount-edit` is asked to do, once the arguments are accepted. -/
inductive Request
  | mount (device mountpoint fstype options : String)
  | unmount (mountpoint : String)
  | addswap (file : String) (sizeMb : ℤ)
  | rmswap (file : String)
  deriving DecidableEq, Repr

/-- Refuse a mountpoint that resolves to a forbidden path or through a symbolic link. -/
def mountpointSafe (paths : Paths) (mp : String) : Except String Unit :=
  if !validMountpoint (paths.realpath mp) then .error "mountpoint resolves to a forbidden path"
  else orRaise (!(paths.islink mp || paths.realpath mp != normpath mp))
    "mountpoint resolves through a symlink" ()

/-- Refuse a swap path that is reached through a symbolic link. -/
def swapPathSafe (paths : Paths) (path : String) : Except String Unit :=
  orRaise (!(paths.realpath path != normpath path)) "swap path resolves through a symlink" ()

def opMount (paths : Paths) (device mountpoint fstype : String) (options : Option String) :
    Except String Request := do
  if !matchesAll devicePattern device then .error "invalid device"
  else if !validMountpoint mountpoint then .error "invalid or forbidden mountpoint"
  else if !fstypeAllow.contains fstype then .error "fstype not in allowlist"
  else
    let options := options.getD "defaults"
    if !matchesAll optionsPattern options then .error "invalid options"
    else if (split ',' options).any fun opt => denyMountOptions.contains (lower opt) then
      .error "mount option grants privilege on the mounted filesystem"
    else
      mountpointSafe paths mountpoint
      .ok (.mount device mountpoint fstype (ensureHardened (ensureNofail options)))

def opUnmount (paths : Paths) (mountpoint : String) : Except String Request :=
  if !validMountpoint mountpoint then .error "invalid or forbidden mountpoint"
  else if paths.islink mountpoint then .error "mountpoint is a symlink"
  else if criticalMountpoints.contains (paths.realpath mountpoint) then
    .error "mountpoint resolves to a critical path"
  else .ok (.unmount mountpoint)

/-- An absolute path without `..` in the characters of a mountpoint. -/
def validSwapPath (path : String) : Bool :=
  !(!startsWith "/" path || contains ".." path || !matchesAll mountpointPattern path)

def opAddswap (paths : Paths) (file : String) (sizeMb : ℤ) : Except String Request := do
  if !validSwapPath file then .error "invalid swap file path"
  else if sizeMb < 1 ∨ 1048576 < sizeMb then .error "size-mb out of range"
  else
    swapPathSafe paths file
    .ok (.addswap file sizeMb)

def opRmswap (paths : Paths) (file : String) : Except String Request := do
  if !validSwapPath file then .error "invalid swap file path"
  else
    swapPathSafe paths file
    .ok (.rmswap file)

def parser : Parser where
  valued := [("--op", ["mount", "unmount", "addswap", "rmswap"].contains), ("--device", anyText),
    ("--mountpoint", anyText), ("--fstype", anyText), ("--options", anyText), ("--file", anyText),
    ("--size-mb", anyInt)]
  switches := []

/-- The request a command line stands for. -/
def main (paths : Paths) (argv : List String) : Except String Request := do
  let args ← parser.parseArgs argv
  match args.lookup "--op" with
  | some "mount" =>
    match given args "--device", given args "--mountpoint", given args "--fstype" with
    | some device, some mountpoint, some fstype =>
      opMount paths device mountpoint fstype (given args "--options")
    | _, _, _ => .error "mount requires --device, --mountpoint, --fstype"
  | some "unmount" =>
    match given args "--mountpoint" with
    | some mountpoint => opUnmount paths mountpoint
    | none => .error "unmount requires --mountpoint"
  | some "addswap" =>
    match given args "--file", ((args.lookup "--size-mb").bind intOf).filter (· != 0) with
    | some file, some sizeMb => opAddswap paths file sizeMb
    | _, _ => .error "addswap requires --file and --size-mb"
  | some "rmswap" =>
    match given args "--file" with
    | some file => opRmswap paths file
    | none => .error "rmswap requires --file"
  | _ => .error "usage"

end MountEdit

/-! ### Sudoers drop-ins -/

/-- `[a-z0-9][a-z0-9_-]{0,63}`, the names `sudoers-edit` and `log-edit` take. -/
def namePattern : Pattern :=
  .seq (.one (lowerAlnumOr "")) (.rep (lowerAlnumOr "_-") 0 (some 63))

namespace SudoersEdit

/-- `[a-z_][a-z0-9_-]*\$?` -/
def identPattern : Pattern :=
  .seq (.one fun c => c.isLower || c == '_')
    (.seq (.rep (lowerAlnumOr "_-") 0 none) (.opt (.lit "$")))

/-- `/[A-Za-z0-9/._-]+` -/
def cmdPattern : Pattern := .seq (.lit "/") (.rep (alnumOr "/._-") 1 none)

def shellEquivalentCommands : List String :=
  ["sh", "bash", "rbash", "dash", "ash", "zsh", "ksh", "ksh93", "mksh", "csh", "tcsh", "fish",
    "busybox", "pwsh", "powershell", "su", "sudo", "sudoedit", "doas", "runuser", "pkexec",
    "setpriv", "chroot", "unshare", "nsenter", "capsh", "python", "python2", "python3", "perl",
    "perl5", "ruby", "irb", "lua", "luac", "node", "nodejs", "php", "tclsh", "wish", "expect",
    "gdb", "julia", "guile", "rscript", "awk", "gawk", "mawk", "nawk", "sed", "ed", "vi", "vim",
    "vimdiff", "view", "ex", "nvim", "emacs", "nano", "less", "more", "most", "man", "pg", "info",
    "env", "nice", "ionice", "taskset", "stdbuf", "setarch", "timeout", "watch", "flock", "xargs",
    "find", "script", "scriptreplay", "socat", "nc", "ncat", "netcat", "tar", "cpio", "zip",
    "unzip", "rsync", "scp", "sftp", "ftp", "ssh", "tmux", "screen", "byobu", "make", "cmake",
    "strace", "ltrace", "tcpdump", "docker", "podman", "git", "crontab", "at", "systemctl",
    "journalctl", "apt", "apt-get", "dpkg", "rpm", "yum", "dnf", "zypper", "pip", "pip3", "gem",
    "npm", "mount"]

def shellEquivalentSuffixes : List String := [".basic", ".tiny"]

def unversionedCommandName (base : String) : String :=
  let base := (shellEquivalentSuffixes.findSome? fun suffix => stripSuffix suffix base).getD base
  String.ofList (base.toList.rdropWhile fun c => c.isDigit || c == '.')

/-- The first entry that makes the list as good as `ALL`. -/
def shellEquivalentCommand (commands : String) : Option String :=
  if commands = "ALL" then none
  else ((split ',' commands).filter fun c => !c.isEmpty).find? fun c =>
    let base := lower ((split '/' c).getLastD c)
    shellEquivalentCommands.contains base ||
      shellEquivalentCommands.contains (unversionedCommandName base)

def validatedIdent (value what : String) : Except String String :=
  if value = "ALL" then .ok value
  else orRaise (!(decide (32 < value.length) || !matchesAll identPattern value))
    ("invalid " ++ what) value

/-- The entries of a command list that is not `ALL`. -/
def commandEntries (commands : String) : Except String (List String) :=
  let cmds := (split ',' commands).filter fun c => !c.isEmpty
  if cmds.isEmpty then .error "no commands given"
  else orRaise (cmds.all fun c => matchesAll cmdPattern c && !contains ".." c && !contains "*" c)
    "invalid command path (absolute, no wildcards, no ..)" cmds

def buildRule (user runas : String) (nopasswd : Bool) (commands : String) :
    Except String String := do
  let cmds ← if commands = "ALL" then .ok ["ALL"] else commandEntries commands
  if (commands == "ALL" || (shellEquivalentCommand commands).isSome) && nopasswd then
    .error "refusing to grant unrestricted commands with NOPASSWD"
  else
    .ok (user ++ " ALL=(" ++ runas ++ ") " ++ (if nopasswd then "NOPASSWD: " else "") ++
      String.intercalate ", " cmds ++ "\n")

inductive Request
  | grant (name rule : String)
  | revoke (name : String)
  | list
  deriving DecidableEq, Repr

def opGrant (name user commands : String) (runas : Option String) (nopasswd : Bool) :
    Except String Request := do
  if !matchesAll namePattern name then .error "invalid name"
  else
    let user ← validatedIdent user "user"
    if user = "ALL" then .error "refusing to grant to ALL users"
    else
      let runas ← validatedIdent (runas.getD "root") "runas"
      let rule ← buildRule user runas nopasswd commands
      .ok (.grant name rule)

def opRevoke (name : String) : Except String Request :=
  orRaise (matchesAll namePattern name) "invalid name" (.revoke name)

def parser : Parser where
  valued := [("--op", ["grant", "revoke", "list"].contains), ("--name", anyText),
    ("--user", anyText), ("--commands", anyText), ("--runas", anyText)]
  switches := ["--nopasswd"]

def main (argv : List String) : Except String Request := do
  let args ← parser.parseArgs argv
  match args.lookup "--op" with
  | some "grant" =>
    match given args "--name", given args "--user", given args "--commands" with
    | some name, some user, some commands =>
      opGrant name user commands (given args "--runas") (args.lookup "--nopasswd").isSome
    | _, _, _ => .error "grant requires --name, --user, --commands"
  | some "revoke" =>
    match given args "--name" with
    | some name => opRevoke name
    | none => .error "revoke requires --name"
  | some "list" => .ok .list
  | _ => .error "usage"

end SudoersEdit

/-! ### Log rotation and forwarding -/

namespace LogEdit

def logRoot : String := "/var/log/"

/-- `/[A-Za-z0-9/._*-]{1,255}` -/
def pathPattern : Pattern := .seq (.lit "/") (.rep (alnumOr "/._*-") 1 (some 255))

/-- `[A-Za-z0-9.:_-]{1,255}` -/
def hostPattern : Pattern := .rep (alnumOr ".:_-") 1 (some 255)

def freq : List String := ["daily", "weekly", "monthly"]

/-- A path strictly under the log root. -/
def validLogGlob (path : String) : Bool :=
  if !matchesAll pathPattern path || contains ".." path then false
  else if startsWith "//" path then false
  else startsWith logRoot (normpath path) && normpath path != "/var/log"

def logEvidenceDirs : List String := ["/var/log", "/var/log/audit", "/var/log/journal"]

/-- Does the path end in a bare wildcard over the log evidence? -/
def sweepsLogEvidence (path : String) : Bool :=
  let parts := (split '/' path).filter fun p => !(["", "."].contains p)
  match parts.getLast? with
  | none => false
  | some last =>
    let parent := parts.dropLast
    last.toList.all (· == '*') &&
      (logEvidenceDirs.contains ("/" ++ String.intercalate "/" parent) ||
        parent.any fun p => contains "*" p)

inductive Request
  | logrotate (name path frequency : String) (rotate : ℤ) (compress : Bool)
  | rmLogrotate (name : String)
  | rsyslogForward (host : String) (port : ℤ) (protocol : String)
  | rmForward
  deriving DecidableEq, Repr

def opLogrotate (name path frequency : String) (rotate : ℤ) (compress : Bool) :
    Except String Request :=
  if !matchesAll namePattern name then .error "invalid name"
  else if !validLogGlob path then .error "log path must be a path under /var/log/"
  else if !freq.contains frequency then .error "frequency must be one of daily, monthly, weekly"
  else if rotate < 0 ∨ 1000 < rotate then .error "rotate count out of range [0, 1000]"
  else if sweepsLogEvidence path then
    .error "log path is a bare wildcard over the host's log evidence"
  else if contains "*" path = true ∧ rotate < 1 then .error "a wildcard log path needs rotate >= 1"
  else .ok (.logrotate name path frequency rotate compress)

def opRmLogrotate (name : String) : Except String Request :=
  orRaise (matchesAll namePattern name) "invalid name" (.rmLogrotate name)

def opRsyslogForward (host : String) (port : ℤ) (protocol : String) : Except String Request :=
  if !matchesAll hostPattern host || contains ".." host then .error "invalid host"
  else if port < 1 ∨ 65535 < port then .error "port out of range"
  else if !(["tcp", "udp"].contains protocol) then .error "protocol must be tcp or udp"
  else .ok (.rsyslogForward host port protocol)

def parser : Parser where
  valued := [("--op", ["logrotate", "rm-logrotate", "rsyslog-forward", "rm-forward"].contains),
    ("--name", anyText), ("--path", anyText), ("--frequency", anyText), ("--rotate", anyInt),
    ("--host", anyText), ("--port", anyInt), ("--protocol", anyText)]
  switches := ["--compress"]

def main (argv : List String) : Except String Request := do
  let args ← parser.parseArgs argv
  match args.lookup "--op" with
  | some "logrotate" =>
    match given args "--name", given args "--path", given args "--frequency",
        (args.lookup "--rotate").bind intOf with
    | some name, some path, some frequency, some rotate =>
      opLogrotate name path frequency rotate (args.lookup "--compress").isSome
    | _, _, _, _ => .error "logrotate requires --name --path --frequency --rotate"
  | some "rm-logrotate" =>
    match given args "--name" with
    | some name => opRmLogrotate name
    | none => .error "rm-logrotate requires --name"
  | some "rsyslog-forward" =>
    match given args "--host", ((args.lookup "--port").bind intOf).filter (· != 0),
        given args "--protocol" with
    | some host, some port, some protocol => opRsyslogForward host port protocol
    | _, _, _ => .error "rsyslog-forward requires --host --port --protocol"
  | some "rm-forward" => .ok .rmForward
  | _ => .error "usage"

end LogEdit

end Sysknife
