import Sysknife.Actions.Build
import Sysknife.Helpers.EditGrammars

/-!
# What a passwordless sudo grant permits

`GrantSudoAccess` and `sudoers-edit` refuse to grant a shell without a password. Both look at the
last component of each entry of the command list. That is what an exact path runs; but an entry
that ends in a slash stands for every command of a directory, and its last component is empty.

`passwordless_iff`: an accepted passwordless grant permits no shell exactly if none of its entries
ends in a slash, and `directory_grants_shell` is a grant that permits `/usr/bin/bash`.
-/

namespace Sysknife

open Text

/-! ### Sudo's reading of a command list -/

/-- The entries of the rule that is written for a command list. -/
def sudoersEntries (commands : String) : List String :=
  if commands = "ALL" then ["ALL"] else commaPieces commands

/-- What an entry of a rule lets run: anything, every command directly in a directory, or one
path. -/
def Permits (entry path : String) : Prop :=
  if entry = "ALL" then True
  else if endsWith "/" entry then
    ∃ name : String, name ≠ "" ∧ '/' ∉ name.toList ∧ path = entry ++ name
  else path = entry

/-- The command at a path hands back a shell, under whatever version or package it goes. -/
def ShellEquivalent (path : String) : Prop :=
  unversionedCommandName (lower (lastComponent path)) ∈ shellEquivalentCommands

/-- No entry is `ALL` and none lets a shell run. -/
def NoShell (entries : List String) : Prop :=
  "ALL" ∉ entries ∧ ∀ entry ∈ entries, ∀ path, Permits entry path → ¬ShellEquivalent path

/-! ### Entries the checks let through -/

/-- The last component of what follows a slash. -/
theorem lastComponent_append {dir name : String} (hdir : endsWith "/" dir = true)
    (hname : '/' ∉ name.toList) : lastComponent (dir ++ name) = name := by
  obtain ⟨parent, hparent⟩ : ∃ parent, parent ++ ['/'] = dir.toList :=
    List.isSuffixOf_iff_suffix.mp hdir
  have hsplit : (dir ++ name).toList.splitOn '/' = parent.splitOn '/' ++ [name.toList] := by
    rw [String.toList_append, ← hparent, List.append_assoc, List.singleton_append,
      List.splitOn_append_cons_self, List.splitOn_eq_singleton hname]
  rw [lastComponent, split_eq, hsplit, List.map_append, List.map_singleton, List.getLastD_concat]
  exact String.ofList_toList

/-- A directory has a shell in it, as far as the rule can tell. -/
theorem exists_shell_of_directory {entry : String} (h : endsWith "/" entry = true) :
    ∃ path, Permits entry path ∧ ShellEquivalent path := by
  have hname : '/' ∉ "bash".toList := by decide
  refine ⟨entry ++ "bash", ?_, ?_⟩
  · rw [Permits, if_pos h]
    split_ifs
    exact ⟨"bash", by decide, hname, rfl⟩
  · rw [ShellEquivalent, lastComponent_append h hname]
    decide

/-- An exact path permits what its last component says. -/
theorem permits_of_not_directory {entry path : String} (hall : entry ≠ "ALL")
    (h : endsWith "/" entry = false) : Permits entry path ↔ path = entry := by
  rw [Permits, if_neg hall, if_neg (by simp [h])]

/-- The screen looks at every entry. -/
theorem not_shellEquivalent_of_screen {commands entry : String} (hall : commands ≠ "ALL")
    (hscreen : shellEquivalentSudoCommand commands = none)
    (hentry : entry ∈ commaPieces commands) : ¬ShellEquivalent entry := by
  rw [shellEquivalentSudoCommand, if_neg (by simpa using hall), List.find?_eq_none] at hscreen
  have hnot := hscreen entry hentry
  simp only [Bool.or_eq_true, List.contains_iff_mem, not_or] at hnot
  exact hnot.2

/-- **What the screen is worth.** A list that passes it permits no shell exactly if no entry is a
directory. -/
theorem noShell_iff {commands : String} (hall : commands ≠ "ALL")
    (hpieces : ∀ c ∈ commaPieces commands, c ≠ "ALL")
    (hscreen : shellEquivalentSudoCommand commands = none) :
    NoShell (sudoersEntries commands) ↔
      ∀ entry ∈ sudoersEntries commands, endsWith "/" entry = false := by
  rw [sudoersEntries, if_neg hall]
  constructor
  · rintro ⟨-, hnone⟩ entry hentry
    rw [← Bool.not_eq_true]
    intro hdir
    obtain ⟨path, hpermits, hshell⟩ := exists_shell_of_directory hdir
    exact hnone entry hentry path hpermits hshell
  · intro hfiles
    refine ⟨fun hmem => hpieces "ALL" hmem rfl, fun entry hentry path hpermits => ?_⟩
    rw [permits_of_not_directory (hpieces entry hentry) (hfiles entry hentry)] at hpermits
    rw [hpermits]
    exact not_shellEquivalent_of_screen hall hscreen hentry

/-! ### The two implementations -/

/-- A grant the daemon builds with `nopasswd` went through the screen. -/
theorem screened_of_buildActionSpec {params : Value} {spec : ActionSpec} {commands : String}
    (h : HelperAction.grantSudoAccess.buildActionSpec params = .ok spec)
    (hnopasswd : optionalBool params "nopasswd" = .ok (some true))
    (hcommands : requireStr params "commands" = .ok commands) :
    (∃ before after, spec.mechanism =
        .command "sudo" (before ++ ["--commands", commands] ++ after ++ ["--nopasswd"])) ∧
      commands ≠ "ALL" ∧ (∀ c ∈ commaPieces commands, c ≠ "ALL") ∧
      shellEquivalentSudoCommand commands = none := by
  simp only [HelperAction.buildActionSpec, HelperAction.arm, bind_eq_ok_iff,
    validatedSudoersName_eq_ok, validatedUsername_eq_ok, validatedSudoCommands_eq_ok, hnopasswd,
    hcommands, ite_error_eq_ok_iff, Except.ok.injEq] at h
  obtain ⟨-, -, _, -, name, -, _, -, user, -, _, rfl, _, ⟨hok, rfl⟩, runas, -, _, rfl, hfree,
    rfl⟩ := h
  simp only [Option.getD_some, Bool.and_true, Bool.or_eq_true, beq_iff_eq, not_or,
    Bool.not_eq_true, Option.isSome_eq_false_iff, Option.isNone_iff_eq_none] at hfree
  obtain ⟨hall, hscreen⟩ := hfree
  refine ⟨⟨[sudoersEdit, "--op", "grant", "--name", name, "--user", user],
    flagged "--runas" runas, by simp [sudoSpec]⟩, hall, fun c hc => ?_, hscreen⟩
  simp only [sudoCommandsOk, beq_iff_eq, hall, Bool.or_eq_true, Bool.and_eq_true,
    List.all_eq_true, false_or] at hok
  have hpiece := hok.1.2 c hc
  rintro rfl
  exact absurd hpiece (by decide)

/-- So did a rule the helper writes. -/
theorem screened_of_buildRule {user runas commands rule : String}
    (h : SudoersEdit.buildRule user runas true commands = .ok rule) :
    rule = user ++ " ALL=(" ++ runas ++ ") " ++ "NOPASSWD: " ++
        String.intercalate ", " (sudoersEntries commands) ++ "\n" ∧
      commands ≠ "ALL" ∧ (∀ c ∈ commaPieces commands, c ≠ "ALL") ∧
      shellEquivalentSudoCommand commands = none := by
  have hall : commands ≠ "ALL" := by
    rintro rfl
    simp [SudoersEdit.buildRule, ok_bind] at h
  simp only [SudoersEdit.buildRule, if_neg hall, bind_eq_ok_iff, ite_error_eq_ok_iff,
    Except.ok.injEq, SudoersEdit.shellEquivalentCommand_eq] at h
  obtain ⟨cmds, hcmds, hfree, rfl⟩ := h
  simp only [Bool.and_true, Bool.or_eq_true, beq_iff_eq, not_or,
    Bool.not_eq_true, Option.isSome_eq_false_iff, Option.isNone_iff_eq_none] at hfree
  obtain ⟨-, hscreen⟩ := hfree
  rw [SudoersEdit.commandEntries, ite_error_eq_ok_iff,
    ActionSteps.orRaise_eq_ok] at hcmds
  obtain ⟨-, hpieces, rfl⟩ := hcmds
  refine ⟨by rw [sudoersEntries, if_neg hall]; rfl, hall, fun c hc => ?_, hscreen⟩
  have hpiece := List.all_eq_true.mp hpieces c hc
  rintro rfl
  exact absurd hpiece (by decide)

/-- **Passwordless grants.** Whatever the daemon builds and whatever rule the helper writes without
asking for a password: it permits no shell exactly if no entry ends in a slash. -/
theorem passwordless_iff (commands : String) :
    (∀ params spec, HelperAction.grantSudoAccess.buildActionSpec params = .ok spec →
      optionalBool params "nopasswd" = .ok (some true) →
      requireStr params "commands" = .ok commands →
      (∃ before after, spec.mechanism =
        .command "sudo" (before ++ ["--commands", commands] ++ after ++ ["--nopasswd"])) ∧
      (NoShell (sudoersEntries commands) ↔
        ∀ entry ∈ sudoersEntries commands, endsWith "/" entry = false)) ∧
    ∀ user runas rule, SudoersEdit.buildRule user runas true commands = .ok rule →
      rule = user ++ " ALL=(" ++ runas ++ ") " ++ "NOPASSWD: " ++
        String.intercalate ", " (sudoersEntries commands) ++ "\n" ∧
      (NoShell (sudoersEntries commands) ↔
        ∀ entry ∈ sudoersEntries commands, endsWith "/" entry = false) := by
  constructor
  · intro params spec h hnopasswd hcommands
    obtain ⟨hargv, hall, hpieces, hscreen⟩ := screened_of_buildActionSpec h hnopasswd hcommands
    exact ⟨hargv, noShell_iff hall hpieces hscreen⟩
  · intro user runas rule h
    obtain ⟨hrule, hall, hpieces, hscreen⟩ := screened_of_buildRule h
    exact ⟨hrule, noShell_iff hall hpieces hscreen⟩

/-- A request for every command of `/usr/bin`. -/
def directoryGrant : Value :=
  .obj [("name", .str "maint"), ("user", .str "ana"), ("commands", .str "/usr/bin/"),
    ("nopasswd", .bool true)]

/-- The request is granted by both, and lets a shell run. -/
theorem directory_grants_shell :
    (∃ spec, HelperAction.grantSudoAccess.buildActionSpec directoryGrant = .ok spec) ∧
    SudoersEdit.buildRule "ana" "root" true "/usr/bin/" =
      .ok "ana ALL=(root) NOPASSWD: /usr/bin/\n" ∧
    ¬NoShell (sudoersEntries "/usr/bin/") := by
  refine ⟨⟨_, rfl⟩, rfl, fun h => ?_⟩
  obtain ⟨path, hpermits, hshell⟩ := exists_shell_of_directory
    (show endsWith "/" "/usr/bin/" = true by decide)
  exact h.2 "/usr/bin/" (by decide) path hpermits hshell

/-- A grant of one program that is not a shell. -/
theorem passwordless_iff_apache :
    SudoersEdit.buildRule "ana" "root" true "/usr/sbin/apachectl" =
      .ok "ana ALL=(root) NOPASSWD: /usr/sbin/apachectl\n" ∧
    NoShell (sudoersEntries "/usr/sbin/apachectl") := by
  have hrule : SudoersEdit.buildRule "ana" "root" true "/usr/sbin/apachectl" =
      .ok "ana ALL=(root) NOPASSWD: /usr/sbin/apachectl\n" := rfl
  exact ⟨hrule, ((passwordless_iff _).2 _ _ _ hrule).2.mpr (by decide)⟩

end Sysknife
