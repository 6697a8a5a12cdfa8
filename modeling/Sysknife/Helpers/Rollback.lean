import Mathlib.Logic.Function.Basic
import Sysknife.Helpers.GrubKargs

/-!
# Undoing a change that failed

Four helpers change a configuration file and run programs over it: `sshd-option-edit`, `log-edit`
(`write_validated`), `scheduled-job-edit` and `grub-kargs-edit`. What the host makes of each step
stands in a structure of faults; a helper then is a function of these and of the files.

* `rollback_complete_iff`: when a helper that fails leaves its files as they were, for each of the
  four. Programs that cannot be started raise an exception that none of them catches.
-/

namespace Sysknife.Rollback

open Text
open MountEdit (readlines translateNewlines)

/-! ### Files and faults -/

/-- What a file holds: text in UTF-8, or bytes that are none. -/
inductive Content
  | text (s : String)
  | binary (bytes : List UInt8)
  deriving DecidableEq, Repr

abbrev Disk := String → Option Content

/-- How a step ends. -/
inductive Outcome
  | ok
  /-- `OSError` -/
  | failed
  deriving DecidableEq, Repr

/-- How writing a file in its place ends. -/
inductive Writing
  | ok
  /-- The file could not be opened, and is as it was. -/
  | notOpened
  /-- The file was cut to nothing and holds what was written of it. -/
  | partly (left : Content)
  deriving DecidableEq, Repr

/-- How `subprocess.run` ends. -/
inductive Ended
  | exited (code : ℤ)
  /-- The program could not be started: an exception. -/
  | notStarted
  deriving DecidableEq, Repr

/-- The files after something was written in place. -/
def written (disk : Disk) (path : String) (content : Content) : Writing → Disk
  | .ok => Function.update disk path (some content)
  | .notOpened => disk
  | .partly left => Function.update disk path (some left)

/-- Another file is as it was. -/
theorem written_of_ne {disk : Disk} {path other : String} (h : other ≠ path) (content : Content)
    (w : Writing) : written disk path content w other = disk other := by
  cases w with
  | ok => exact Function.update_of_ne h _ _
  | notOpened => rfl
  | partly left => exact Function.update_of_ne h _ _

/-- A text as `read()` gives it back. -/
def asRead (s : String) : String := String.ofList (translateNewlines s.toList)

/-- A helper that fails leaves the files it manages as they were. -/
def RolledBack (managed : List String) (before : Disk) (run : Disk × ℤ) : Prop :=
  run.2 ≠ 0 → ∀ path ∈ managed, run.1 path = before path

section RolledBack

variable {managed : List String} {path : String} {before after : Disk} {code : ℤ}

theorem rolledBack_zero : RolledBack managed before (after, 0) := fun h => absurd rfl h

theorem rolledBack_same : RolledBack managed before (before, code) := fun _ _ _ => rfl

theorem rolledBack_singleton (h : code ≠ 0) :
    RolledBack [path] before (after, code) ↔ after path = before path := by
  constructor
  · exact fun hrun => hrun h path List.mem_cons_self
  · intro heq _ p hp
    rw [List.mem_singleton.mp hp]
    exact heq

end RolledBack

theorem asRead_eq_iff {s : String} : asRead s = s ↔ '\r' ∉ s.toList := by
  rw [← String.toList_inj, asRead, String.toList_ofList]
  constructor
  · intro heq
    rw [← heq]
    exact MountEdit.notMem_translateNewlines s.toList
  · exact MountEdit.translateNewlines_of_notMem

/-! ### An option of the SSH server -/

namespace SshdOption

def allowed : List (String × List String) :=
  [("PermitRootLogin", ["yes", "no", "prohibit-password", "forced-commands-only"]),
    ("PasswordAuthentication", ["yes", "no"]), ("PubkeyAuthentication", ["yes", "no"]),
    ("X11Forwarding", ["yes", "no"]), ("PermitEmptyPasswords", ["yes", "no"])]

def dropinDir : String := "/etc/ssh/sshd_config.d"

/-- The file of an option. -/
def dropin (option : String) : String := dropinDir ++ "/60-sysknife-" ++ lower option ++ ".conf"

def backupOf (path : String) : String := path ++ ".sysknife.bak"

structure Faults where
  makedirs : Outcome
  readPrevious : Outcome
  writeBackup : Writing
  write : Writing
  check : Ended
  restore : Outcome
  removeBackup : Outcome
  reload : String → Ended

/-- The files after the previous text was set aside, and where it is; `none` when it is no text,
which is an exception. -/
def backUp (f : Faults) (path : String) (disk : Disk) : Option (Disk × Option String) :=
  match disk path with
  | none => some (disk, none)
  | some content =>
    match f.readPrevious, content with
    | .failed, _ => some (disk, none)
    | .ok, .binary _ => none
    | .ok, .text s =>
      let disk' := written disk (backupOf path) (.text (asRead s)) f.writeBackup
      some (disk', if f.writeBackup = .ok then some (backupOf path) else none)

/-- Restore the previous file, or remove the new one. -/
def restore (f : Faults) (backup : Option String) (path : String) (disk : Disk) : Disk :=
  if f.restore = .ok then
    match backup.bind disk with
    | some content =>
      Function.update (Function.update disk path (some content)) (backupOf path) none
    | none => Function.update disk path none
  else disk

/-- Reload the first unit there is; a failed reload is no failure. -/
def reload (f : Faults) : ℤ :=
  match f.reload "ssh" with
  | .notStarted => 1
  | .exited code => if code ≠ 0 ∧ f.reload "sshd" = .notStarted then 1 else 0

def settings (option value : String) : Content := .text (option ++ " " ++ value ++ "\n")

def main (f : Faults) (option value : String) (disk : Disk) : Disk × ℤ :=
  let path := dropin option
  if ((allowed.lookup option).any fun values => values.contains value) = false then (disk, 1)
  else if f.makedirs = .failed then (disk, 1)
  else
    match backUp f path disk with
    | none => (disk, 1)
    | some (disk, backup) =>
      let disk := written disk path (settings option value) f.write
      if f.write = .ok then
        match f.check with
        -- The exception is not caught, so nothing is restored.
        | .notStarted => (disk, 1)
        | .exited code =>
          if code ≠ 0 then (restore f backup path disk, 1)
          else
            (if f.removeBackup = .ok then Function.update disk (backupOf path) none else disk,
              reload f)
      else (disk, 1)

/-- The helper comes to write its file. -/
def Attempted (f : Faults) (option value : String) (disk : Disk) : Prop :=
  ((allowed.lookup option).any fun values => values.contains value) = true ∧ f.makedirs = .ok ∧
    ∀ bytes, disk (dropin option) = some (.binary bytes) → f.readPrevious = .failed

/-- No fault that leaves the file changed: it is written as a whole or not at all, the programs can
be started, and what is rejected was set aside before, in a text without carriage returns. -/
def Recovers (f : Faults) (option value : String) (disk : Disk) : Prop :=
  Attempted f option value disk →
    match f.write with
    | .notOpened => True
    | .partly left => disk (dropin option) = some left
    | .ok =>
      match f.check with
      | .notStarted => disk (dropin option) = some (settings option value)
      | .exited code =>
        if code ≠ 0 then ∀ content, disk (dropin option) = some content →
          f.readPrevious = .ok ∧ f.writeBackup = .ok ∧ ∃ s, content = .text s ∧ '\r' ∉ s.toList
        else reload f ≠ 0 → disk (dropin option) = some (settings option value)

section Main

variable {f : Faults} {option value path : String} {disk disk' : Disk} {backup : Option String}

theorem backupOf_ne (path : String) : path ≠ backupOf path := by
  intro h
  have hlength := congrArg (fun s : String => s.toList.length) h
  simp [backupOf] at hlength

/-- Only bytes that are no text end the helper while it sets them aside. -/
theorem backUp_eq_none :
    backUp f path disk = none ↔
      f.readPrevious = .ok ∧ ∃ bytes, disk path = some (.binary bytes) := by
  rw [backUp]
  cases hpath : disk path with
  | none => simp
  | some content => cases content <;> cases f.readPrevious <;> simp

/-- The file is unchanged; its text was set aside, or could not be. -/
theorem backUp_eq_some (h : backUp f path disk = some (disk', backup)) :
    disk' path = disk path ∧
      ((backup = none ∧ ∀ previous, disk path = some previous →
          ¬(f.readPrevious = .ok ∧ f.writeBackup = .ok)) ∨
        (backup = some (backupOf path) ∧ f.readPrevious = .ok ∧ f.writeBackup = .ok ∧
          ∃ s, disk path = some (.text s) ∧
            disk' (backupOf path) = some (.text (asRead s)))) := by
  rw [backUp] at h
  cases hpath : disk path with
  | none =>
    rw [hpath] at h
    obtain ⟨rfl, rfl⟩ := Prod.mk.inj (Option.some.inj h)
    exact ⟨hpath, .inl ⟨rfl, fun previous hprevious => by cases hprevious⟩⟩
  | some content =>
    rw [hpath] at h
    cases hread : f.readPrevious with
    | failed =>
      rw [hread] at h
      obtain ⟨rfl, rfl⟩ := Prod.mk.inj (Option.some.inj h)
      exact ⟨hpath, .inl ⟨rfl, fun _ _ hok => by cases hok.1⟩⟩
    | ok =>
      cases content with
      | binary bytes =>
        rw [hread] at h
        cases h
      | text s =>
        rw [hread] at h
        obtain ⟨rfl, rfl⟩ := Prod.mk.inj (Option.some.inj h)
        refine ⟨(written_of_ne (backupOf_ne path) _ _).trans hpath, ?_⟩
        by_cases hbackup : f.writeBackup = .ok
        · refine .inr ⟨if_pos hbackup, rfl, hbackup, s, rfl, ?_⟩
          rw [hbackup, written, Function.update_self]
        · exact .inl ⟨if_neg hbackup, fun _ _ hok => hbackup hok.2⟩

/-- What the file holds after a rejected change. -/
theorem restore_path (h : backUp f path disk = some (disk', backup)) (hrestore : f.restore = .ok)
    (content : Content) :
    restore f backup path (Function.update disk' path (some content)) path = disk path ↔
      ∀ previous, disk path = some previous →
        f.readPrevious = .ok ∧ f.writeBackup = .ok ∧
          ∃ s, previous = .text s ∧ '\r' ∉ s.toList := by
  obtain ⟨-, ⟨rfl, hlost⟩ | ⟨rfl, hread, hwrite, s, hprevious, hbackup⟩⟩ := backUp_eq_some h
  -- Nothing was set aside, so the file is removed, and is missing if there was one before.
  · rw [restore, if_pos hrestore, Option.bind_none]
    simp only [Function.update_self]
    cases hpath : disk path with
    | none => exact iff_of_true rfl fun previous hp => by cases hp
    | some previous =>
      refine iff_of_false (fun heq => by cases heq) fun hall => ?_
      obtain ⟨hread, hwrite, -⟩ := hall previous rfl
      exact hlost previous hpath ⟨hread, hwrite⟩
  · have hne := backupOf_ne path
    -- What was set aside comes back as it was read, with its carriage returns translated.
    have hfound : (some (backupOf path)).bind (Function.update disk' path (some content)) =
        some (.text (asRead s)) := by
      rw [Option.bind_some, Function.update_of_ne hne.symm, hbackup]
    rw [restore, if_pos hrestore, hfound]
    simp only [Function.update_of_ne hne, Function.update_self, hprevious, Option.some.injEq,
      Content.text.injEq, forall_eq', hread, hwrite, true_and, exists_eq_left', asRead_eq_iff]

/-- **`sshd-option-edit` undoes what failed exactly when no fault is one it does not handle.** -/
theorem rolledBack_iff (hrestore : f.restore = .ok) :
    RolledBack [dropin option] disk (main f option value disk) ↔ Recovers f option value disk := by
  have hone : (1 : ℤ) ≠ 0 := by decide
  rw [Recovers, main]
  by_cases hallowed : ((allowed.lookup option).any fun values => values.contains value) = true
  swap
  · rw [if_pos (eq_false_of_ne_true hallowed)]
    exact iff_of_true rolledBack_same fun h => absurd h.1 hallowed
  rw [if_neg (by rw [hallowed]; exact Bool.noConfusion)]
  by_cases hdirs : f.makedirs = .failed
  · rw [if_pos hdirs]
    exact iff_of_true rolledBack_same fun h => absurd (hdirs.symm.trans h.2.1) (by decide)
  have hdirs' : f.makedirs = .ok := by
    cases hm : f.makedirs
    · rfl
    · exact absurd hm hdirs
  rw [if_neg hdirs]
  cases hbackup : backUp f (dropin option) disk with
  | none =>
    obtain ⟨hread, bytes, hbytes⟩ := backUp_eq_none.mp hbackup
    refine iff_of_true rolledBack_same fun h => ?_
    rw [h.2.2 bytes hbytes] at hread
    cases hread
  | some p =>
    obtain ⟨disk', backup⟩ := p
    obtain ⟨hkept, -⟩ := backUp_eq_some hbackup
    -- From here on the file is written, and what is left of it is told by how the steps end.
    have hattempted : Attempted f option value disk := by
      refine ⟨hallowed, hdirs', fun bytes hbytes => ?_⟩
      cases hread : f.readPrevious with
      | failed => rfl
      | ok =>
        have hnone := backUp_eq_none.mpr ⟨hread, bytes, hbytes⟩
        rw [hbackup] at hnone
        cases hnone
    rw [forall_prop_of_true hattempted]
    cases hwrite : f.write with
    | notOpened =>
      simp only [written, reduceCtorEq, if_false, rolledBack_singleton hone, hkept]
    | partly left =>
      simp only [written, reduceCtorEq, if_false, rolledBack_singleton hone, Function.update_self]
      exact eq_comm
    | ok =>
      simp only [written, if_true]
      cases hcheck : f.check with
      | notStarted =>
        simp only [rolledBack_singleton hone, Function.update_self]
        exact eq_comm
      | exited code =>
        by_cases hcode : code ≠ 0
        · simp only [if_pos hcode, rolledBack_singleton hone]
          exact restore_path hbackup hrestore _
        · simp only [if_neg hcode]
          have hpath : (if f.removeBackup = .ok then
              Function.update (Function.update disk' (dropin option)
                (some (settings option value))) (backupOf (dropin option)) none
              else Function.update disk' (dropin option) (some (settings option value)))
                (dropin option) = some (settings option value) := by
            split_ifs
            · rw [Function.update_of_ne (backupOf_ne _), Function.update_self]
            · rw [Function.update_self]
          by_cases hreload : reload f ≠ 0
          · rw [rolledBack_singleton hreload, hpath, forall_prop_of_true hreload]
            exact eq_comm
          · rw [not_not.mp hreload]
            exact iff_of_true rolledBack_zero fun h => absurd rfl h

end Main

end SshdOption

/-! ### Log configuration -/

namespace LogEdit

structure Faults where
  readPrevious : Outcome
  makedirs : Outcome
  /-- The new file is written beside the old one, and takes its place as a whole. -/
  replace : Outcome
  check : Ended
  restore : Outcome

/-- What is restored: `some none` where there is no file, `none` where it cannot be read. -/
def previous (f : Faults) (dest : String) (disk : Disk) : Option (Option String) :=
  match disk dest with
  | none => some none
  | some (.text s) => if f.readPrevious = .ok then some (some (asRead s)) else none
  | some (.binary _) => none

def writeValidated (f : Faults) (dest body : String) (disk : Disk) : Disk × ℤ :=
  match previous f dest disk with
  | none => (disk, 1)
  | some prev =>
    if f.makedirs = .ok ∧ f.replace = .ok then
      let disk := Function.update disk dest (some (.text body))
      match f.check with
      | .notStarted => (disk, 1)
      | .exited code =>
        if code ≠ 0 then
          (if f.restore = .ok then Function.update disk dest (prev.map .text) else disk, 1)
        else (disk, 0)
    else (disk, 1)

/-- The checker can be started, and what it rejects replaced no text with carriage returns. -/
def Recovers (f : Faults) (dest body : String) (disk : Disk) : Prop :=
  (previous f dest disk).isSome = true → f.makedirs = .ok ∧ f.replace = .ok →
    match f.check with
    | .notStarted => disk dest = some (.text body)
    | .exited code => code ≠ 0 → ∀ s, disk dest = some (.text s) → '\r' ∉ s.toList

/-- **`write_validated` undoes what failed exactly when the checker can be started, and what is
rejected replaced no text with carriage returns.** -/
theorem rolledBack_iff {f : Faults} {dest body : String} {disk : Disk}
    (hrestore : f.restore = .ok) :
    RolledBack [dest] disk (writeValidated f dest body disk) ↔ Recovers f dest body disk := by
  have hone : (1 : ℤ) ≠ 0 := by decide
  rw [Recovers, writeValidated]
  cases hprev : previous f dest disk with
  | none => exact iff_of_true rolledBack_same fun h => Bool.noConfusion h
  | some prev =>
    rw [Option.isSome_some, forall_prop_of_true rfl]
    by_cases hreplaced : f.makedirs = .ok ∧ f.replace = .ok
    swap
    · simp only [if_neg hreplaced]
      exact iff_of_true rolledBack_same fun h => absurd h hreplaced
    simp only [if_pos hreplaced]
    rw [forall_prop_of_true hreplaced]
    cases hcheck : f.check with
    | notStarted =>
      simp only [rolledBack_singleton hone, Function.update_self]
      exact eq_comm
    | exited code =>
      by_cases hcode : code ≠ 0
      · simp only [if_pos hcode, if_pos hrestore, rolledBack_singleton hone, Function.update_self]
        rw [forall_prop_of_true hcode]
        rw [previous] at hprev
        cases hdest : disk dest with
        | none =>
          rw [hdest] at hprev
          rw [← Option.some.inj hprev]
          exact iff_of_true rfl fun s hs => by cases hs
        | some content =>
          rw [hdest] at hprev
          cases content with
          | binary bytes => cases hprev
          | text s =>
            simp only at hprev
            split_ifs at hprev
            rw [← Option.some.inj hprev, Option.map_some, Option.some.injEq, Content.text.injEq,
              asRead_eq_iff]
            simp only [Option.some.injEq, Content.text.injEq, forall_eq']
      · simp only [if_neg hcode]
        exact iff_of_true rolledBack_zero fun h => absurd h hcode

end LogEdit

/-! ### Scheduled jobs -/

namespace ScheduledJob

def unitDir : String := "/etc/systemd/system"

def unitPrefix : String := "sysknife-"

/-- Where systemd loads units from. -/
def unitLoadPath : List String :=
  [unitDir, "/run/systemd/system", "/usr/local/lib/systemd/system", "/usr/lib/systemd/system",
    "/lib/systemd/system"]

/-- `[A-Za-z0-9][A-Za-z0-9_-]{0,63}` -/
def namePattern : Pattern := .seq (.one (alnumOr "")) (.rep (alnumOr "_-") 0 (some 63))

def servicePath (name : String) : String := unitDir ++ "/" ++ unitPrefix ++ name ++ ".service"

def timerPath (name : String) : String := unitDir ++ "/" ++ unitPrefix ++ name ++ ".timer"

def hasControl (s : String) : Bool :=
  s.toList.any fun c => decide (c.toNat < 0x20) || c.toNat == 0x7F

/-- `command.replace("%", "%%")` -/
def execStart (command : String) : String :=
  String.ofList (command.toList.flatMap fun c => if c = '%' then ['%', '%'] else [c])

def serviceUnit (name command : String) : String :=
  "[Unit]\nDescription=SysKnife scheduled job: " ++ name ++
    "\n\n[Service]\nType=oneshot\nExecStart=" ++ execStart command ++ "\n"

def timerUnit (name schedule : String) : String :=
  "[Unit]\nDescription=SysKnife timer for " ++ name ++ "\n\n[Timer]\nOnCalendar=" ++ schedule ++
    "\nPersistent=true\n\n[Install]\nWantedBy=timers.target\n"

structure Faults where
  analyze : Ended
  service : Outcome
  timer : Outcome
  /-- Removing what was created. -/
  undo : Outcome
  /-- What a unit holds that could neither be written nor removed. -/
  left : Content
  reload : Ended
  enable : Ended

/-- A unit of the job exists where systemd would load it from. -/
def unitExists (name : String) (disk : Disk) : Bool :=
  unitLoadPath.any fun directory => [name, unitPrefix ++ name].any fun stem =>
    [".service", ".timer"].any fun suffix => (disk (directory ++ "/" ++ stem ++ suffix)).isSome

/-- Create a unit that does not exist; what cannot be written is removed. -/
def writeExclusiveUnit (f : Faults) (outcome : Outcome) (path content : String) (disk : Disk) :
    Disk × Outcome :=
  if (disk path).isSome then (disk, .failed)
  else if outcome = .ok then (Function.update disk path (some (.text content)), .ok)
  else (if f.undo = .ok then disk else Function.update disk path (some f.left), .failed)

def main (f : Faults) (name command schedule : String) (disk : Disk) : Disk × ℤ :=
  if !namePattern.fullmatch name.toList || hasControl command || hasControl schedule then (disk, 1)
  else if f.analyze ≠ .exited 0 then (disk, 1)
  else if unitExists name disk then (disk, 1)
  else
    let (disk, service) :=
      writeExclusiveUnit f f.service (servicePath name) (serviceUnit name command) disk
    if service = .failed then (disk, 1)
    else
      let (disk, timer) :=
        writeExclusiveUnit f f.timer (timerPath name) (timerUnit name schedule) disk
      if timer = .failed then
        (if f.undo = .ok then Function.update disk (servicePath name) none else disk, 1)
      else if f.reload ≠ .exited 0 then (disk, 1)
      else if f.enable ≠ .exited 0 then (disk, 1)
      else (disk, 0)

/-- Both units come to be created. -/
def Created (f : Faults) (name command schedule : String) (disk : Disk) : Prop :=
  (!namePattern.fullmatch name.toList || hasControl command || hasControl schedule) = false ∧
    f.analyze = .exited 0 ∧ unitExists name disk = false ∧ f.service = .ok ∧ f.timer = .ok

/-- What is created can be enabled. -/
def Recovers (f : Faults) (name command schedule : String) (disk : Disk) : Prop :=
  Created f name command schedule disk → f.reload = .exited 0 ∧ f.enable = .exited 0

theorem servicePath_ne (name : String) : servicePath name ≠ timerPath name := by
  intro h
  have hlist := congrArg String.toList h
  simp only [servicePath, timerPath, String.toList_append, List.append_assoc,
    List.append_cancel_left_eq] at hlist
  exact absurd hlist (by decide)

/-- A unit that does not exist is created, or nothing is left of it. -/
theorem writeExclusiveUnit_of_absent {f : Faults} {path : String} {disk : Disk}
    (habsent : disk path = none) (hundo : f.undo = .ok) (outcome : Outcome) (content : String) :
    writeExclusiveUnit f outcome path content disk =
      if outcome = .ok then (Function.update disk path (some (.text content)), .ok)
      else (disk, .failed) := by
  have hnone : (none : Option Content).isSome = false := rfl
  rw [writeExclusiveUnit, habsent, hnone, if_neg Bool.false_ne_true, if_pos hundo]

/-- No unit of the job exists when none is found. -/
theorem absent_of_unitExists {name : String} {disk : Disk} (h : unitExists name disk = false) :
    disk (servicePath name) = none ∧ disk (timerPath name) = none := by
  have hnone : ∀ suffix ∈ [".service", ".timer"],
      disk (unitDir ++ "/" ++ (unitPrefix ++ name) ++ suffix) = none := by
    intro suffix hsuffix
    rw [unitExists, List.any_eq_false] at h
    -- The directory the units are written to is one of those searched, with the prefix.
    have hdir := h unitDir List.mem_cons_self
    rw [Bool.not_eq_true, List.any_eq_false] at hdir
    have hstem := hdir (unitPrefix ++ name) (by simp)
    rw [Bool.not_eq_true, List.any_eq_false] at hstem
    simpa using hstem suffix hsuffix
  have hstem : ∀ suffix : String, unitDir ++ "/" ++ unitPrefix ++ name ++ suffix =
      unitDir ++ "/" ++ (unitPrefix ++ name) ++ suffix := by
    intro suffix
    simp only [String.append_assoc]
  constructor
  · rw [servicePath, hstem]
    exact hnone ".service" (by simp)
  · rw [timerPath, hstem]
    exact hnone ".timer" (by simp)

/-- **`scheduled-job-edit` undoes what failed exactly when no created unit fails to be enabled.** -/
theorem rolledBack_iff {f : Faults} {name command schedule : String} {disk : Disk}
    (hundo : f.undo = .ok) :
    RolledBack [servicePath name, timerPath name] disk (main f name command schedule disk) ↔
      Recovers f name command schedule disk := by
  rw [Recovers, main]
  by_cases hinvalid :
      (!namePattern.fullmatch name.toList || hasControl command || hasControl schedule) = true
  · rw [if_pos hinvalid]
    exact iff_of_true rolledBack_same fun h => absurd (h.1.symm.trans hinvalid) (by decide)
  rw [if_neg hinvalid]
  by_cases hanalyze : f.analyze = .exited 0
  swap
  · rw [if_pos hanalyze]
    exact iff_of_true rolledBack_same fun h => absurd h.2.1 hanalyze
  rw [if_neg (not_not.mpr hanalyze)]
  by_cases hexists : unitExists name disk = true
  · rw [if_pos hexists]
    exact iff_of_true rolledBack_same fun h => absurd (h.2.2.1.symm.trans hexists) (by decide)
  rw [if_neg hexists]
  obtain ⟨hservice, htimer⟩ := absent_of_unitExists (eq_false_of_ne_true hexists)
  have hfirst := writeExclusiveUnit_of_absent hservice hundo f.service (serviceUnit name command)
  have hok : ¬(Outcome.ok = .failed) := by decide
  by_cases hcreated : f.service = .ok
  swap
  · rw [hfirst, if_neg hcreated]
    exact iff_of_true rolledBack_same fun h => absurd h.2.2.2.1 hcreated
  rw [hfirst, if_pos hcreated]
  simp only [if_neg hok]
  have htimer' : Function.update disk (servicePath name) (some (.text (serviceUnit name command)))
      (timerPath name) = none := by
    rw [Function.update_of_ne (servicePath_ne name).symm, htimer]
  have hsecond := writeExclusiveUnit_of_absent htimer' hundo f.timer (timerUnit name schedule)
  by_cases hboth : f.timer = .ok
  swap
  · -- the service is removed again
    have hundone : Function.update (Function.update disk (servicePath name)
        (some (.text (serviceUnit name command)))) (servicePath name) none = disk := by
      rw [Function.update_idem, ← hservice, Function.update_eq_self]
    rw [hsecond, if_neg hboth]
    simp only [if_true, if_pos hundo, hundone]
    exact iff_of_true rolledBack_same fun h => absurd h.2.2.2.2 hboth
  have hall : Created f name command schedule disk :=
    ⟨eq_false_of_ne_true hinvalid, hanalyze, eq_false_of_ne_true hexists, hcreated, hboth⟩
  rw [hsecond, if_pos hboth, forall_prop_of_true hall]
  simp only [if_neg hok]
  -- both units are there, and no step removes them any more
  have hleft : ¬RolledBack [servicePath name, timerPath name] disk
      (Function.update (Function.update disk (servicePath name)
        (some (.text (serviceUnit name command)))) (timerPath name)
          (some (.text (timerUnit name schedule))), 1) := by
    intro h
    have hone : (1 : ℤ) ≠ 0 := by decide
    have heq := (Function.update_self _ _ _).symm.trans (h hone (timerPath name) (by simp))
    rw [htimer] at heq
    cases heq
  by_cases hreload : f.reload = .exited 0
  · rw [if_neg (not_not.mpr hreload)]
    by_cases henable : f.enable = .exited 0
    · rw [if_neg (not_not.mpr henable)]
      exact iff_of_true rolledBack_zero ⟨hreload, henable⟩
    · rw [if_pos henable]
      exact iff_of_false hleft fun h => henable h.2
  · rw [if_pos hreload]
    exact iff_of_false hleft fun h => hreload h.1

end ScheduledJob

/-! ### The kernel command line -/

namespace GrubKargs

def grubDefault : String := "/etc/default/grub"

def grubBackup : String := "/etc/default/grub.sysknife.bak"

structure Faults where
  read : Outcome
  backup : Writing
  write : Writing
  updateGrub : Ended
  restore : Outcome

/-- The items of a list with commas. -/
def items (list : String) : List String := (split ',' list).filter fun t => !t.isEmpty

/-- The text with the kernel command line edited. -/
def edited (append delete text : String) : String :=
  MountEdit.joined
    (Sysknife.GrubKargs.editGrubCmdline (readlines text) (items append) (items delete))

/-- Copy the backup over the file. -/
def restore (f : Faults) (disk : Disk) : Disk :=
  if f.restore = .ok then Function.update disk grubDefault (disk grubBackup) else disk

def main (f : Faults) (append delete : String) (disk : Disk) : Disk × ℤ :=
  if (items append).isEmpty && (items delete).isEmpty then (disk, 2)
  else if !Sysknife.GrubKargs.accepted (items append) (items delete) then (disk, 1)
  else
    match f.read, disk grubDefault with
    | .ok, some (.text s) =>
      let disk := written disk grubBackup (.text s) f.backup
      if f.backup = .ok then
        let disk := written disk grubDefault (.text (edited append delete s)) f.write
        if f.write = .ok then
          match f.updateGrub with
          | .notStarted => (disk, 1)
          | .exited code => if code ≠ 0 then (restore f disk, code) else (disk, 0)
        else (restore f disk, 1)
      else (disk, 1)
    | _, _ => (disk, 1)

/-- `update-grub` can be started, or there was nothing to be changed. -/
def Recovers (f : Faults) (append delete : String) (disk : Disk) : Prop :=
  ∀ s, disk grubDefault = some (.text s) → f.read = .ok → f.backup = .ok → f.write = .ok →
    Sysknife.GrubKargs.accepted (items append) (items delete) = true →
      f.updateGrub = .notStarted → edited append delete s = s

/-- **`grub-kargs-edit` undoes what failed exactly when `update-grub` can be started, or the edit
changed nothing.** -/
theorem rolledBack_iff {f : Faults} {append delete : String} {disk : Disk}
    (hrestore : f.restore = .ok) :
    RolledBack [grubDefault] disk (main f append delete disk) ↔
      Recovers f append delete disk := by
  have hone : (1 : ℤ) ≠ 0 := by decide
  have hne : grubDefault ≠ grubBackup := by decide
  rw [Recovers, main]
  by_cases haccepted : Sysknife.GrubKargs.accepted (items append) (items delete) = true
  swap
  · rw [eq_false_of_ne_true haccepted, Bool.not_false]
    by_cases hempty : ((items append).isEmpty && (items delete).isEmpty) = true
    · rw [if_pos hempty]
      exact iff_of_true rolledBack_same fun s _ _ _ _ h => absurd h Bool.false_ne_true
    · rw [if_neg hempty, if_pos rfl]
      exact iff_of_true rolledBack_same fun s _ _ _ _ h => absurd h Bool.false_ne_true
  have hsome : ((items append).isEmpty && (items delete).isEmpty) = false := by
    simp only [Sysknife.GrubKargs.accepted, Bool.and_eq_true, Bool.not_eq_true'] at haccepted
    exact haccepted.1.1.1.1
  rw [hsome, if_neg Bool.false_ne_true, haccepted, Bool.not_true, if_neg Bool.false_ne_true]
  cases hread : f.read with
  | failed => exact iff_of_true rolledBack_same fun s _ h => by cases h
  | ok =>
    cases hdisk : disk grubDefault with
    | none => exact iff_of_true rolledBack_same fun s h => by cases h
    | some content =>
      cases content with
      | binary bytes => exact iff_of_true rolledBack_same fun s h => by cases h
      | text s =>
        have hkept : ∀ (content : Content) (w : Writing),
            written disk grubBackup content w grubDefault = some (.text s) :=
          fun content w => (written_of_ne hne content w).trans hdisk
        by_cases hbackup : f.backup = .ok
        swap
        · simp only [if_neg hbackup, rolledBack_singleton hone, hkept, hdisk]
          exact iff_of_true trivial fun s _ _ h => absurd h hbackup
        -- whatever was written of the file, the backup still holds its text
        have hrestored : ∀ (content : Content) (w : Writing),
            restore f (written (written disk grubBackup (.text s) f.backup) grubDefault content w)
              grubDefault = some (.text s) := by
          intro content w
          rw [restore, if_pos hrestore, Function.update_self, hbackup, written_of_ne hne.symm,
            written, Function.update_self]
        simp only [if_pos hbackup]
        by_cases hwrite : f.write = .ok
        swap
        · simp only [if_neg hwrite, rolledBack_singleton hone, hrestored, hdisk]
          exact iff_of_true trivial fun s _ _ _ h => absurd h hwrite
        simp only [if_pos hwrite]
        cases hupdate : f.updateGrub with
        | notStarted =>
          simp only [rolledBack_singleton hone, hwrite, written, Function.update_self, hdisk,
            Option.some.injEq, Content.text.injEq, forall_eq', hbackup, forall_const]
        | exited code =>
          by_cases hcode : code ≠ 0
          · simp only [if_pos hcode, rolledBack_singleton hcode, hrestored, hdisk]
            exact iff_of_true trivial fun s _ _ _ _ _ h => by cases h
          · simp only [if_neg hcode]
            exact iff_of_true rolledBack_zero fun s _ _ _ _ _ h => by cases h

end GrubKargs

/-! ### The four helpers -/

/-- Whatever fails but the undoing, a helper that fails leaves its files as they were. -/
def Complete : Prop :=
  ∀ disk : Disk,
    (∀ (f : SshdOption.Faults) (option value : String), f.restore = .ok →
      RolledBack [SshdOption.dropin option] disk (SshdOption.main f option value disk)) ∧
    (∀ (f : LogEdit.Faults) (dest body : String), f.restore = .ok →
      RolledBack [dest] disk (LogEdit.writeValidated f dest body disk)) ∧
    (∀ (f : ScheduledJob.Faults) (name command schedule : String), f.undo = .ok →
      RolledBack [ScheduledJob.servicePath name, ScheduledJob.timerPath name] disk
        (ScheduledJob.main f name command schedule disk)) ∧
    ∀ (f : GrubKargs.Faults) (append delete : String), f.restore = .ok →
      RolledBack [GrubKargs.grubDefault] disk (GrubKargs.main f append delete disk)

/-- **When a failed run is undone**, for each helper: whatever was on the disk and whatever failed
but the undoing itself. -/
theorem rollback_complete_iff (disk : Disk) :
    (∀ (f : SshdOption.Faults) (option value : String), f.restore = .ok →
      (RolledBack [SshdOption.dropin option] disk (SshdOption.main f option value disk) ↔
        SshdOption.Recovers f option value disk)) ∧
    (∀ (f : LogEdit.Faults) (dest body : String), f.restore = .ok →
      (RolledBack [dest] disk (LogEdit.writeValidated f dest body disk) ↔
        LogEdit.Recovers f dest body disk)) ∧
    (∀ (f : ScheduledJob.Faults) (name command schedule : String), f.undo = .ok →
      (RolledBack [ScheduledJob.servicePath name, ScheduledJob.timerPath name] disk
          (ScheduledJob.main f name command schedule disk) ↔
        ScheduledJob.Recovers f name command schedule disk)) ∧
    ∀ (f : GrubKargs.Faults) (append delete : String), f.restore = .ok →
      (RolledBack [GrubKargs.grubDefault] disk (GrubKargs.main f append delete disk) ↔
        GrubKargs.Recovers f append delete disk) :=
  ⟨fun _ _ _ h => SshdOption.rolledBack_iff h, fun _ _ _ h => LogEdit.rolledBack_iff h,
    fun _ _ _ _ h => ScheduledJob.rolledBack_iff h, fun _ _ _ h => GrubKargs.rolledBack_iff h⟩

/-- A timer that cannot be enabled is left on the disk. -/
theorem units_left : ¬Complete := by
  intro h
  have hrun := (h fun _ => none).2.2.1
    { analyze := .exited 0
      service := .ok
      timer := .ok
      undo := .ok
      left := .text ""
      reload := .exited 0
      enable := .exited 1 } "backup" "/usr/bin/true" "daily" rfl
  have hcreated : (some (Content.text (ScheduledJob.timerUnit "backup" "daily"))) = none :=
    hrun (by decide) (ScheduledJob.timerPath "backup") (by simp)
  cases hcreated

end Sysknife.Rollback
