import Sysknife.Actions
import Sysknife.Lib.Prog

/-!
# Running privileged actions

The executor of `executor.rs`: it spawns the command of an action in a process group of its own,
reads and publishes its output, and waits for it until the action's deadline. What outruns the
deadline, or cannot be read, is stopped: first by signals to the group, then, where its processes
run as root, by `sudo`; and what the executor reports depends on whether the group is gone.

The executor is a program over calls to the operating system (`OsCall`). Everything the kernel and
the other processes decide comes with each call (`OsChoice`); `World.serve` only fixes what a
process group is: while it has members they come, go and change as they like, and a group
without members has none ever after. A process is a member until it is waited for, so the command
itself is one, dead or alive, until the executor has waited for it.
-/

namespace Sysknife.Executor

/-! ### Calls -/

/-- What reading a line comes to. -/
inductive LineRead
  | line (text : String)
  | eof
  | failed (error : String)
  /-- The deadline passed. -/
  | elapsed

/-- What waiting for the command comes to. -/
inductive Waited
  /-- It exited, with a code unless a signal killed it. -/
  | exited (code : Option ℤ)
  | failed (error : String)
  /-- The deadline passed. -/
  | elapsed

/-- How a task that collects output fails. -/
inductive TaskError
  | panicked (error : String)
  | io (error : String)

/-- The calls of the executor. -/
inductive OsCall
  /-- `Command::spawn`, in a process group of its own -/
  | spawn (program : String) (args : List String)
  /-- `next_line`, until the deadline -/
  | nextLine
  /-- Send a line to whoever follows the progress. -/
  | publish (line : String)
  /-- `Child::wait`, until the deadline -/
  | wait
  /-- Await the task that reads the standard output. -/
  | collectStdout
  /-- Await the task that reads the standard error. -/
  | collectStderr
  /-- `Child::id` -/
  | childId
  /-- `Child::start_kill` -/
  | startKill
  /-- `killpg(2)`; the signal 0 only looks. -/
  | killpg (pgid : ℤ) (signal : ℕ)
  /-- `Child::wait`, for `REAP_WAIT_CAP` at most -/
  | waitCapped
  /-- Is there time left of `GROUP_TERM_GRACE`? -/
  | graceLeft
  | sleep (millis : ℕ)
  /-- Run `sudo` with these arguments, for `REAP_WAIT_CAP` at most. -/
  | sudo (args : List String)
  | readDir (path : String)
  /-- Create the directories above a path. -/
  | createParents (path : String)
  | write (path content : String)
  | readToString (path : String)
  | removeFile (path : String)
  /-- The execution's future is ready with this result. -/
  | resolve (result : ExecutionResult)
  /-- Await the execution's future. -/
  | await

/-- What a call is answered with. -/
abbrev OsCall.Answer : OsCall → Type
  | .spawn _ _ => Except String Unit
  | .nextLine => LineRead
  | .wait => Waited
  | .collectStdout | .collectStderr => Except TaskError String
  | .childId => Option ℕ
  | .killpg _ _ => Option ℤ
  | .graceLeft => Bool
  | .readDir _ => Except String (List String)
  | .createParents _ | .write _ _ | .removeFile _ => Except String Unit
  | .readToString _ => Except String String
  | .await => List String × ExecutionResult
  | _ => Unit

/-- A program of the executor. -/
abbrev OsProg (α : Type) := Prog OsCall OsCall.Answer α

/-- Make one call. -/
abbrev os (c : OsCall) : OsProg c.Answer := Prog.perform c

/-! ### Process groups -/

/-- `ESRCH` -/
def esrch : ℤ := 3

/-- `EPERM` -/
def eperm : ℤ := 1

/-- What a `killpg` probe says about a process group. -/
inductive GroupState
  | gone
  | aliveReachable
  /-- It has members that this process may not signal. -/
  | aliveUnreachable
  | unknown (errno : ℤ)
  deriving DecidableEq

def GroupState.isGone : GroupState → Bool
  | .gone => true
  | _ => false

/-- Probe a process group without delivering a signal. -/
def probeGroup (pgid : ℤ) : OsProg GroupState := do
  match ← os (.killpg pgid 0) with
  | none => return .aliveReachable
  | some errno =>
    if errno = esrch then return .gone
    else if errno = eperm then return .aliveUnreachable
    else return .unknown errno

def sigterm : ℕ := 15

def sigkill : ℕ := 9

/-- Send a signal to a process group; that it is already gone is no error. -/
def signalGroup (pgid : ℤ) (signal : ℕ) : OsProg (Except ℤ Unit) := do
  match ← os (.killpg pgid signal) with
  | none => return .ok ()
  | some errno => if errno = esrch then return .ok () else return .error errno

/-! ### Stopping -/

/-- Is the real work of the action an `rpm-ostree` transaction, in a cgroup of its own? -/
def isRpmOstreeAction (program : String) (args : List String) : Bool :=
  let isOstree (s : String) :=
    s == "rpm-ostree" || "/rpm-ostree".toList.isSuffixOf s.toList
  isOstree program || args.any isOstree

/-- The helper that the sudoers file lets the daemon run as root. -/
def actionStepsPath : String := "/usr/lib/sysknife/action-steps"

/-- A signal to a whole process group, sent by root. -/
def rootGroupKillArgv (signal : String) (pgid : ℤ) : List String :=
  ["-n", actionStepsPath, "signal", signal, "-" ++ toString pgid]

/-- Cancel the running `rpm-ostree` transaction. -/
def ostreeCancelArgv : List String := ["-n", "/usr/bin/rpm-ostree", "cancel"]

/-- The first command of the privileged reaper. -/
def reapCommand (pgid : ℤ) (program : String) (args : List String) : List String :=
  if isRpmOstreeAction program args then ostreeCancelArgv else rootGroupKillArgv "TERM" pgid

/-- Stop as root what the daemon's own signals could not stop. -/
def privilegedReap (pgid : ℤ) (program : String) (args : List String) : OsProg Unit := do
  os (.sudo (reapCommand pgid program args))
  if isRpmOstreeAction program args then return
  os (.sleep 300)
  unless (← probeGroup pgid).isGone do os (.sudo (rootGroupKillArgv "KILL" pgid))

/-- Why a command that still runs is torn down. -/
inductive StopCause
  | timeout
  | unreadable (error : String)

/-- The error to return once the group is gone. -/
def StopCause.intoError (program : String) (timeoutSecs : ℕ) : StopCause → ExecutorError
  | .timeout => .io (program ++ " exceeded the " ++ toString timeoutSecs ++
      "s action timeout and was stopped")
  | .unreadable error => .io error

/-- Wait for the group to go, for the time of grace. A round takes 50 ms, and the grace is 5 s. -/
def awaitGrace (pgid : ℤ) : ℕ → OsProg Unit
  | 0 => return
  | rounds + 1 => do
    if ← os .graceLeft then
      unless (← probeGroup pgid).isGone do
        os (.sleep 50)
        awaitGrace pgid rounds

/-- How many rounds of 50 ms there are in `GROUP_TERM_GRACE`. -/
def graceRounds : ℕ := 100

/-- Kill what outlived the time of grace. -/
def killSurvivors (pgid : ℤ) : OsProg Unit := do
  unless (← probeGroup pgid).isGone do
    let _ ← signalGroup pgid sigkill
    os (.sleep 200)
    os .waitCapped

/-- Have root stop what the daemon may not signal. -/
def escalate (pgid : ℤ) (program : String) (args : List String) : OsProg Unit := do
  if (← probeGroup pgid) = .aliveUnreachable then
    privilegedReap pgid program args
    os (.sleep 200)
    os .waitCapped

/-- Report whether the group is gone. -/
def stopVerdict (pgid : ℤ) (program : String) (timeoutSecs : ℕ) (cause : StopCause) :
    OsProg ExecutorError := do
  match ← probeGroup pgid with
  | .gone => return cause.intoError program timeoutSecs
  | _ => return .actionNotStopped program pgid timeoutSecs

/-- Stop an action, and report whether it stopped. -/
def killAndReap (program : String) (args : List String) (timeoutSecs : ℕ) (cause : StopCause) :
    OsProg ExecutorError := do
  match ← os .childId with
  | none => return cause.intoError program timeoutSecs
  | some pid =>
    let pgid := (pid : ℤ)
    os .startKill
    let _ ← signalGroup pgid sigterm
    os .waitCapped
    awaitGrace pgid graceRounds
    killSurvivors pgid
    escalate pgid program args
    stopVerdict pgid program timeoutSecs cause

/-! ### Executing -/

/-- Read and publish the lines of the standard output. Before the deadline no more than
`lines` of them come. -/
def readLines : ℕ → String → OsProg (Except StopCause String)
  | 0, _ => return .error .timeout
  | lines + 1, stdout => do
    match ← os .nextLine with
    | .line text =>
      unless text = "" do os (.publish text)
      readLines lines (stdout ++ text ++ "\n")
    | .eof => return .ok stdout
    | .failed error => return .error (.unreadable error)
    | .elapsed => return .error .timeout

/-- Wait for the command to exit. -/
def awaitExit : OsProg (Except StopCause ℤ) := do
  match ← os .wait with
  | .exited code => return .ok (code.getD (-1))
  | .failed error => return .error (.unreadable error)
  | .elapsed => return .error .timeout

section

variable (timeoutSecs lines : ℕ)

/-- Execute a command and publish its output line by line. -/
def executeCommandWithProgress (program : String) (args : List String) :
    OsProg ExecutionResult := do
  match ← os (.spawn program args) with
  | .error error => return .error (.io error)
  | .ok () =>
    match ← readLines lines "" with
    | .error cause => return .error (← killAndReap program args timeoutSecs cause)
    | .ok stdout =>
      match ← awaitExit with
      | .error cause => return .error (← killAndReap program args timeoutSecs cause)
      | .ok exitCode =>
        match ← os .collectStderr with
        | .error (.panicked _) => return .error (.io "stderr reader task panicked")
        | .error (.io error) => return .error (.io error)
        | .ok stderr => return .ok ⟨stdout, stderr, exitCode⟩

/-- What a reader task's failure is reported as. -/
def readerError : TaskError → ExecutorError
  | .panicked error => .io ("reader task panicked: " ++ error)
  | .io error => .io error

/-- Execute a command and collect its output. -/
def executeCommand (program : String) (args : List String) : OsProg ExecutionResult := do
  match ← os (.spawn program args) with
  | .error error => return .error (.io error)
  | .ok () =>
    match ← awaitExit with
    | .error cause => return .error (← killAndReap program args timeoutSecs cause)
    | .ok exitCode =>
      match ← os .collectStdout with
      | .error error => return .error (readerError error)
      | .ok stdout =>
        match ← os .collectStderr with
        | .error error => return .error (readerError error)
        | .ok stderr => return .ok ⟨stdout, stderr, exitCode⟩

/-- `str::replacen` with a count of one. -/
def replaceFirst (text search replacement : List Char) : List Char :=
  if search.isPrefixOf text then replacement ++ text.drop search.length
  else
    match text with
    | [] => []
    | c :: rest => c :: replaceFirst rest search replacement

/-- List a directory. -/
def scanFiles (path : String) : OsProg ExecutionResult := do
  match ← os (.readDir path) with
  | .error error => return .error (.io error)
  | .ok names =>
    return .ok ⟨"\n".intercalate (names.mergeSort fun a b => decide (a ≤ b)), "", 0⟩

/-- Write a file, below directories that may have to be created. -/
def writeFile (path content : String) : OsProg ExecutionResult := do
  match ← os (.createParents path) with
  | .error error => return .error (.io error)
  | .ok () =>
    match ← os (.write path content) with
    | .error error => return .error (.io error)
    | .ok () => return .ok ⟨"", "", 0⟩

/-- Replace the first occurrence of a text in a file. -/
def patchFile (path search replacement : String) : OsProg ExecutionResult := do
  match ← os (.readToString path) with
  | .error error => return .error (.io error)
  | .ok content =>
    let patched := String.ofList (replaceFirst content.toList search.toList replacement.toList)
    if patched = content ∧ search ≠ "" then
      return .ok ⟨"", "search string not found in file: " ++ path, 1⟩
    else
      match ← os (.write path patched) with
      | .error error => return .error (.io error)
      | .ok () => return .ok ⟨"", "", 0⟩

def deleteFile (path : String) : OsProg ExecutionResult := do
  match ← os (.removeFile path) with
  | .error error => return .error (.io error)
  | .ok () => return .ok ⟨"", "", 0⟩

/-- `execute_spec` -/
def executeSpec (spec : ActionSpec) : OsProg ExecutionResult :=
  match spec.mechanism with
  | .command program args => executeCommand timeoutSecs program args
  | .fileScan path => scanFiles path
  | .fileWrite path content => writeFile path content
  | .filePatch path search replacement => patchFile path search replacement
  | .fileDelete path => deleteFile path

/-- `RealActionExecutor::execute_with_progress` -/
def executeWithProgress (spec : ActionSpec) : OsProg ExecutionResult :=
  match spec.mechanism with
  | .command program args => executeCommandWithProgress timeoutSecs lines program args
  | _ => executeSpec timeoutSecs spec

end

/-! ### The world -/

/-- A process of the group other than the command itself; the daemon may signal it or not. -/
structure Member where
  pid : ℕ
  reachable : Bool

/-- The number of a process that is neither `init` nor a kernel thread. -/
structure Pid where
  val : ℕ
  two_le : 2 ≤ val
  lt : val < 2 ^ 31

/-- The command that was spawned last, and its process group. -/
structure Child where
  pid : Pid
  /-- It was waited for. -/
  waited : Bool
  /-- It was waited for before its deadline, so it ended on its own. -/
  exited : Bool
  /-- The daemon may signal it. -/
  reachable : Bool
  /-- The rest of its group. -/
  members : List Member

/-- The group has a member. -/
def Child.alive (c : Child) : Bool := !c.waited || !c.members.isEmpty

/-- The group has a member that the daemon may signal. -/
def Child.signalable (c : Child) : Bool :=
  (!c.waited && c.reachable) || c.members.any (·.reachable)

/-- What the executor deals with. -/
structure World where
  child : Option Child
  /-- The result of the execution, once its future is ready. -/
  future : Option ExecutionResult

/-- No command was spawned yet. -/
def World.initial : World := ⟨none, none⟩

/-- An error other than `ESRCH` and `EPERM`. -/
abbrev StrangeErrno := { errno : ℤ // errno ≠ esrch ∧ errno ≠ eperm }

/-- What the outside decides at one call. -/
structure OsChoice where
  /-- What has become of the group in the meantime. -/
  reachable : Bool
  members : List Member
  /-- The number a new process gets. -/
  pid : Pid
  spawned : Except String Unit
  line : LineRead
  waited : Waited
  output : Except TaskError String
  /-- The kernel gives another error than a group with members calls for. -/
  strange : Option StrangeErrno
  /-- The answer of `killpg` for a group that is not the command's. -/
  foreign : Option ℤ
  /-- A wait within the cap was successful. -/
  reaped : Bool
  timeLeft : Bool
  names : Except String (List String)
  done : Except String Unit
  content : Except String String
  lines : List String

/-- What becomes of a group between two calls: without members it stays without. -/
def Child.evolve (c : Child) (choice : OsChoice) : Child :=
  if c.alive then { c with reachable := choice.reachable, members := choice.members } else c

def World.evolve (w : World) (choice : OsChoice) : World :=
  { w with child := w.child.map (·.evolve choice) }

/-- The child once it was waited for. -/
def World.reap (w : World) (onItsOwn : Bool) : World :=
  { w with child := w.child.map fun c => { c with waited := true, exited := onItsOwn || c.exited } }

/-- The answer of `killpg(2)` about the command's group. -/
def Child.killpg (c : Child) (choice : OsChoice) : Option ℤ :=
  if c.alive then
    match choice.strange with
    | some errno => some errno.val
    | none => if c.signalable then none else some eperm
  else some esrch

/-- The answer to a call, and the world after it. -/
def World.serve (w : World) (choice : OsChoice) : (c : OsCall) → c.Answer × World
  | .spawn _ _ =>
    match choice.spawned with
    | .error error => (.error error, w.evolve choice)
    | .ok () =>
      (.ok (), { w with
        child := some ⟨choice.pid, false, false, choice.reachable, choice.members⟩ })
  | .nextLine => (choice.line, w.evolve choice)
  | .publish _ => ((), w.evolve choice)
  | .wait =>
    match choice.waited with
    | .exited code => (.exited code, (w.evolve choice).reap true)
    | .failed error => (.failed error, w.evolve choice)
    | .elapsed => (.elapsed, w.evolve choice)
  | .collectStdout | .collectStderr => (choice.output, w.evolve choice)
  | .childId =>
    ((w.child.filter fun c => !c.waited).map fun c => c.pid.val, w.evolve choice)
  | .startKill => ((), w.evolve choice)
  | .killpg pgid _ =>
    (match (w.evolve choice).child with
      | some c => if pgid = c.pid.val then c.killpg choice else choice.foreign
      | none => choice.foreign, w.evolve choice)
  | .waitCapped =>
    if choice.reaped then ((), (w.evolve choice).reap false) else ((), w.evolve choice)
  | .graceLeft => (choice.timeLeft, w.evolve choice)
  | .sleep _ => ((), w.evolve choice)
  | .sudo _ => ((), w.evolve choice)
  | .readDir _ => (choice.names, w.evolve choice)
  | .createParents _ => (choice.done, w.evolve choice)
  | .write _ _ => (choice.done, w.evolve choice)
  | .readToString _ => (choice.content, w.evolve choice)
  | .removeFile _ => (choice.done, w.evolve choice)
  | .resolve result => ((), { w.evolve choice with future := some result })
  | .await =>
    ((choice.lines, w.future.getD (.error (.actionNotStopped "" 0 0))), w.evolve choice)

end Sysknife.Executor
