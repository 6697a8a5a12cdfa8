import Mathlib.Data.List.Dedup
import Sysknife.Types

/-!
# Actions

What an action runs (`ActionSpec`), which system lock it contends for
(`exclusiveResource`), what undoes it (`rollbackSpecFor`), and how an execution ends. The
catalogue that builds a specification from a name and parameters is not part of this file: the
dispatcher takes it as a parameter.
-/

namespace Sysknife

/-- How an action does its work. -/
inductive ActionMechanism
  | command (program : String) (args : List String)
  | fileScan (path : String)
  | fileWrite (path content : String)
  | filePatch (path search replace : String)
  | fileDelete (path : String)
  deriving DecidableEq, Repr

/-- An action ready to be executed. -/
structure ActionSpec where
  actionName : String
  mechanism : ActionMechanism
  riskLevel : RiskLevel
  rebootRequired : Bool
  rollbackAvailable : Bool
  deriving DecidableEq, Repr

/-- The static part of a specification, known from the action's name. -/
structure SpecMeta where
  riskLevel : RiskLevel
  rebootRequired : Bool
  rollbackAvailable : Bool
  deriving DecidableEq, Repr

/-! ### Locks -/

/-- A system-wide lock that only one mutating action may hold at a time. -/
inductive ExclusiveResource
  /-- The whole machine, claimed by high-risk actions that require a reboot. -/
  | system
  | dpkg
  | snap
  | rpmOstree
  | flatpak
  deriving DecidableEq, Repr

/-- Name used in the conflict message. -/
def ExclusiveResource.label : ExclusiveResource → String
  | .system => "the system (a reboot-required action)"
  | .dpkg => "the dpkg/apt lock"
  | .snap => "the snapd change queue"
  | .rpmOstree => "the rpm-ostree transaction lock"
  | .flatpak => "the flatpak installation lock"

/-- `char::is_whitespace`: the Unicode property `White_Space`. -/
def isWhitespace (c : Char) : Bool :=
  let n := c.toNat
  (9 ≤ n && n ≤ 13) || n == 0x20 || n == 0x85 || n == 0xA0 || n == 0x1680 ||
    (0x2000 ≤ n && n ≤ 0x200A) || n == 0x2028 || n == 0x2029 || n == 0x202F || n == 0x205F ||
    n == 0x3000

/-- The nonempty pieces of a text between separators. -/
def wordsBy (separator : Char → Bool) (s : String) : List String :=
  ((s.toList.splitOnP separator).filter fun w => !w.isEmpty).map String.ofList

/-- The last component of a path. -/
def baseName (token : String) : String :=
  String.ofList ((token.toList.splitOnP (· == '/')).getLastD [])

/-- The lock a tool takes, by the name of its binary. -/
def toolResource (name : String) : Option ExclusiveResource :=
  if name ∈ ["apt-get", "apt", "apt-mark", "aptitude", "dpkg", "dpkg-reconfigure",
      "add-apt-repository", "do-release-upgrade", "unattended-upgrade", "apt-pin-edit"] then
    some .dpkg
  else if name ∈ ["snap", "snap-install-hold"] then some .snap
  else if name ∈ ["rpm-ostree", "ostree"] then some .rpmOstree
  else if name = "flatpak" then some .flatpak
  else none

/-- Which system lock, if any, an action contends for: that of the first recognised tool among
the words of its command line. A word may sit inside a shell script. -/
def exclusiveResource (spec : ActionSpec) : Option ExclusiveResource :=
  match spec.mechanism with
  | .command program args =>
    let separator (c : Char) := isWhitespace c || c ∈ ['&', '|', ';', '(', ')']
    ((program :: args).flatMap (wordsBy separator)).findSome? fun token =>
      toolResource (baseName token)
  | _ => none

/-- The command line alone never asks for the whole machine. -/
theorem exclusiveResource_ne_system (spec : ActionSpec) :
    exclusiveResource spec ≠ some .system := by
  have htool (name : String) : toolResource name ≠ some .system := by
    unfold toolResource
    split_ifs <;> decide
  intro h
  unfold exclusiveResource at h
  split at h
  · obtain ⟨token, -, htoken⟩ := List.exists_of_findSome?_eq_some h
    exact htool _ htoken
  · cases h

/-! ### Execution -/

/-- Errors of building or executing an action. -/
inductive ExecutorError
  | unknownAction (action : String)
  | missingParam (param : String)
  | invalidParam (param : String)
  | invalidIpAddress (param value : String)
  | io (message : String)
  /-- The action outran its deadline and could not be confirmed stopped. -/
  | actionNotStopped (program : String) (pgid : ℤ) (timeoutSecs : ℕ)
  deriving DecidableEq, Repr

/-- The text of an executor error. -/
def ExecutorError.message : ExecutorError → String
  | .unknownAction action => "unknown action: " ++ action
  | .missingParam param => "missing required param: " ++ param
  | .invalidParam param => "invalid param type for: " ++ param
  | .invalidIpAddress param value =>
    "invalid IP address for param '" ++ param ++ "': '" ++ value ++ "'"
  | .io message => "io error: " ++ message
  | .actionNotStopped program pgid timeoutSecs =>
    program ++ " exceeded the " ++ toString timeoutSecs ++ "s action timeout and could not be " ++
      "confirmed stopped: process group " ++ toString pgid ++ " still has members. Automatic " ++
      "rollback was skipped because the original action may still be running; " ++
      "inspect the host before retrying"

/-- Output of an executed action. -/
structure ExecutionOutput where
  stdout : String
  stderr : String
  exitCode : ℤ
  deriving DecidableEq, Repr

/-- Did the action exit cleanly? -/
def ExecutionOutput.isSuccess (out : ExecutionOutput) : Bool := out.exitCode == 0

/-- How an execution ends. -/
abbrev ExecutionResult := Except ExecutorError ExecutionOutput

/-- The deadline passed and the work may still be going on. -/
def mayStillBeRunning : ExecutionResult → Bool
  | .error (.actionNotStopped _ _ _) => true
  | _ => false

/-- What undoes a failed action: going back to the previous deployment. -/
def rollbackSpecFor (actionName : String) : Option ActionSpec :=
  if actionName ∈ ["UpdateSystem", "InstallPackages", "RemovePackages", "RebaseSystem",
      "SetKernelArguments", "AddLayeredPackage", "RemoveLayeredPackage", "ReplaceLayeredPackage",
      "ResetLayeredPackageOverride", "RemoveBasePackage"] then
    some
      { actionName := "RollbackDeployment"
        mechanism := .command "rpm-ostree" ["rollback"]
        riskLevel := .high
        rebootRequired := true
        rollbackAvailable := false }
  else none

/-! ### The autoremove set -/

/-- A set of strings in ascending order, as `BTreeSet` keeps it. -/
def sortedSet (items : List String) : List String :=
  (items.mergeSort fun a b => decide (a ≤ b)).dedup

/-- A line without the carriage return that belongs to its line feed. -/
def withoutReturn (l : List Char) : List Char := if l.getLast? = some '\r' then l.dropLast else l

/-- The lines of a text; a line ends at a line feed, with or without a carriage return. What
follows the last line feed is a line as it stands, unless it is empty. -/
def lines (s : String) : List String :=
  let pieces := s.toList.splitOnP (· == '\n')
  let last := pieces.getLastD []
  (pieces.dropLast.map fun l => String.ofList (withoutReturn l)) ++
    if last = [] then [] else [String.ofList last]

/-- What was put together of pieces, each closed by a separator, is split into them. -/
theorem splitOnP_closed {p : Char → Bool} {sep : Char} (hsep : p sep = true)
    (pieces : List (List Char)) (rest : List Char) (h : ∀ l ∈ pieces, ∀ c ∈ l, p c = false) :
    (pieces.flatMap (· ++ [sep]) ++ rest).splitOnP p = pieces ++ rest.splitOnP p := by
  induction pieces with
  | nil => rfl
  | cons l pieces ih =>
    have hl : ∀ c ∈ l, p c = false := h l List.mem_cons_self
    rw [List.flatMap_cons, List.append_assoc, List.append_assoc, List.singleton_append,
      List.splitOnP_append_cons_of_forall_mem hl sep hsep,
      ih fun l' hl' => h l' (List.mem_cons_of_mem l hl'), List.cons_append]

/-- A text of lines that are closed by a line feed and hold no carriage return. -/
theorem lines_closed {pieces : List (List Char)}
    (h : ∀ l ∈ pieces, ∀ c ∈ l, c ≠ '\n' ∧ c ≠ '\r') :
    lines (String.ofList (pieces.flatMap (· ++ ['\n']))) = pieces.map String.ofList := by
  have hclosed : ∀ l ∈ pieces, ∀ c ∈ l, (c == '\n') = false := fun l hl c hc =>
    beq_eq_false_iff_ne.mpr (h l hl c hc).1
  have hpieces : (pieces.flatMap (· ++ ['\n'])).splitOnP (· == '\n') = pieces ++ [[]] := by
    rw [← List.append_nil (pieces.flatMap _), splitOnP_closed (by decide) pieces [] hclosed,
      List.splitOnP_nil]
  have hreturn : ∀ l ∈ pieces, String.ofList (withoutReturn l) = String.ofList l := by
    intro l hl
    rw [withoutReturn, if_neg]
    exact fun hlast => (h l hl '\r' (List.mem_of_getLast? hlast)).2 rfl
  simp only [lines, String.toList_ofList, hpieces, List.dropLast_concat, List.getLastD_concat,
    if_true, List.append_nil]
  exact List.map_congr_left hreturn

/-- The package a line of `apt-get -s autoremove` announces for removal. -/
def removalOfLine (line : String) : Option String :=
  let rest := line.toList.dropWhile isWhitespace
  if "Remv ".toList.isPrefixOf rest then
    (wordsBy isWhitespace (String.ofList (rest.drop 5))).head?
  else none

/-- The packages `apt-get -s autoremove` would remove. -/
def parseAutoremoveRemovals (simulateStdout : String) : List String :=
  sortedSet ((lines simulateStdout).filterMap removalOfLine)

end Sysknife
