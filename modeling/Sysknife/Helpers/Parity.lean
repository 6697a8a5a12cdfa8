import Sysknife.Helpers.CommandLines
import Sysknife.Helpers.Operations

/-!
# The helpers accept what the daemon builds

`helper_accepts_iff`: for every action that runs a packaging helper and all parameters that
`build_action_spec` takes, the helper accepts the command line exactly when the parameters are
not among a few kinds on which its own validation is the stricter one
(`HelperAction.Agreed`). For most actions there is no such kind.

The helper's validation is everything it checks about its arguments before it acts: their text,
and for `mount-edit` what the host says a path resolves to (`Paths`). Whether an account or a
package exists is not part of it.
-/

namespace Sysknife

open Text
open ActionSteps (orRaise matchesAll orRaise_eq_ok)

/-- Does a helper's own validation accept these arguments? -/
@[grind =]
def helperTakes (paths : Paths) (helper : String) (argv : List String) : Prop :=
  (helper = actionSteps ∧ ActionSteps.Accepts argv) ∨
    (helper = mountEdit ∧ ∃ request, MountEdit.main paths argv = .ok request) ∨
      (helper = sudoersEdit ∧ ∃ request, SudoersEdit.main argv = .ok request) ∨
        (helper = logEdit ∧ ∃ request, LogEdit.main argv = .ok request)

/-- Does the helper that an action's command line runs accept it? The command is the helper, or
`sudo` with the helper as its first argument. -/
@[grind =]
def HelperAccepts (paths : Paths) (spec : ActionSpec) : Prop :=
  match spec.mechanism with
  | .command program args =>
    if program = "sudo" then
      ∃ helper argv, args = helper :: argv ∧ helperTakes paths helper argv
    else helperTakes paths program args
  | _ => False

namespace HelperAction

/-- The kinds of parameters the two validations agree on, action by action. -/
@[grind =]
def Agreed (paths : Paths) (params : Value) : HelperAction → Prop
  | .signalProcess => ∀ pid, requirePid params = .ok pid → pid < 2 ^ 31
  | .installPackages | .removePackages => strArrayOrEmpty params "packages" ≠ .ok []
  | .addMount =>
    (∀ d, requireStr params "device" = .ok d → DeviceNamed d) ∧
      (∀ mp, requireStr params "mountpoint" = .ok mp →
        paths.realpath mp = normpath mp ∧ paths.islink mp = false ∧
          normpath mp ∉ MountEdit.criticalMountpoints) ∧
        ∀ options, optionalStr params "options" = .ok (some options) →
          ∀ p, (commaPieces options).head? = some p → startsWith "-" p = false
  | .removeMount => ∀ mp, requireStr params "mountpoint" = .ok mp →
    paths.islink mp = false ∧ paths.realpath mp ∉ MountEdit.criticalMountpoints
  | .addSwap | .removeSwap => ∀ file, requireStr params "file" = .ok file →
    paths.realpath file = normpath file
  | .grantSudoAccess =>
    (∀ u, requireStr params "user" = .ok u → PlainAccount u) ∧
      (∀ c, requireStr params "commands" = .ok c → "/" ∉ commaPieces c) ∧
        ∀ r, runasOf params = .ok (some r) → r = "ALL" ∨ PlainAccount r
  | .configureLogRotation => ∀ path, requireStr params "path" = .ok path → NamesLog path
  | _ => True

end HelperAction

section Parity

variable {paths : Paths} {params : Value} {spec : ActionSpec}

theorem arm_of_build {a : HelperAction} (h : a.buildActionSpec params = .ok spec) :
    a.arm params = .ok spec := by
  obtain ⟨_, -, harm⟩ := exists_of_bind_eq_ok h
  exact harm

theorem accepts_sudoSpec {name : String} {risk : RiskLevel} {argv : List String} :
    HelperAccepts paths (sudoSpec name risk (actionSteps :: argv)) ↔ ActionSteps.Accepts argv := by
  have h₁ : actionSteps ≠ mountEdit := by decide
  have h₂ : actionSteps ≠ sudoersEdit := by decide
  have h₃ : actionSteps ≠ logEdit := by decide
  simp [HelperAccepts, sudoSpec, helperTakes, h₁, h₂, h₃]

theorem accepts_deploymentSpec {name : String} {argv : List String} :
    HelperAccepts paths (deploymentSpec name argv) ↔
      ∃ command, ActionSteps.rpmOstreeArgv argv = .ok command := by
  have h₁ : actionSteps ≠ mountEdit := by decide
  have h₂ : actionSteps ≠ sudoersEdit := by decide
  have h₃ : actionSteps ≠ logEdit := by decide
  rw [← ActionSteps.accepts_rpmOstree]
  simp [HelperAccepts, deploymentSpec, helperTakes, h₁, h₂, h₃]

theorem sudoSpec_accepted {name : String} {risk : RiskLevel} {argv : List String}
    (h : ActionSteps.Accepts argv) :
    HelperAccepts paths (sudoSpec name risk (actionSteps :: argv)) :=
  accepts_sudoSpec.mpr h

theorem deploymentSpec_accepted {name : String} {argv : List String}
    (h : ∃ command, ActionSteps.rpmOstreeArgv argv = .ok command) :
    HelperAccepts paths (deploymentSpec name argv) :=
  accepts_deploymentSpec.mpr h

/-! ### Units -/

theorem unitNameOk_of_activatable {unit : String} (h : activatableUnitOk unit = true) :
    unitNameOk unit = true := by
  rw [activatableUnitOk, Bool.and_eq_true] at h
  exact h.1

theorem units_accept {a : HelperAction} (h : a.arm params = .ok spec)
    (ha : a ∈ [.startService, .stopService, .restartService, .setServiceEnabled, .maskService,
      .unmaskService, .reloadService]) : HelperAccepts paths spec := by
  -- the verbs that are neither activating nor stopping
  have hquiet : ∀ verb ∈ ["disable", "mask", "reload"], ∀ unit, unitNameOk unit = true →
      ActionSteps.Accepts ["unit", verb, unit] := by
    intro verb hverb unit hunit
    have hlists : ∀ v ∈ ["disable", "mask", "reload"], v ∉ ActionSteps.activatingVerbs ∧
        v ∉ ActionSteps.stoppingVerbs ∧ v ∈ ActionSteps.quiescingVerbs := by decide
    obtain ⟨hactivating, hstopping, hquiescing⟩ := hlists verb hverb
    exact ActionSteps.accepts_unit.mpr ⟨List.mem_append_right _ hquiescing, hunit,
      fun hmem => absurd hmem hactivating, fun hmem => absurd hmem hstopping⟩
  have hactivate : ∀ verb ∈ ["start", "enable", "unmask"], ∀ unit, activatableUnitOk unit = true →
      ActionSteps.Accepts ["unit", verb, unit] := by
    intro verb hverb unit hunit
    have hlists : ∀ v ∈ ["start", "enable", "unmask"], v ∈ ActionSteps.activatingVerbs ∧
        v ∉ ActionSteps.stoppingVerbs := by decide
    obtain ⟨hactivating, hstopping⟩ := hlists verb hverb
    exact ActionSteps.accepts_unit.mpr ⟨List.mem_append_left _ hactivating,
      unitNameOk_of_activatable hunit, fun _ => hunit, fun hmem => absurd hmem hstopping⟩
  simp only [List.mem_cons, List.not_mem_nil, or_false] at ha
  rcases ha with rfl | rfl | rfl | rfl | rfl | rfl | rfl <;>
    simp only [HelperAction.arm, bind_eq_ok_iff, validatedActivatableUnit_eq_ok,
      validatedStoppableUnit_eq_ok, validatedUnitName_eq_ok, Except.ok.injEq] at h
  · obtain ⟨unit, -, _, ⟨hunit, rfl⟩, rfl⟩ := h
    exact sudoSpec_accepted (hactivate "start" (by decide) _ hunit)
  · obtain ⟨_, -, unit, ⟨hunit, rfl⟩, rfl⟩ := h
    have hname : unitNameOk unit = true := by
      rw [stoppableUnitOk, Bool.and_eq_true] at hunit
      exact hunit.1
    exact sudoSpec_accepted (ActionSteps.accepts_unit.mpr ⟨by decide, hname,
      fun hmem => absurd hmem (by decide), fun _ => hunit⟩)
  · obtain ⟨unit, -, _, ⟨hunit, rfl⟩, _, ⟨hstop, rfl⟩, rfl⟩ := h
    exact sudoSpec_accepted (ActionSteps.accepts_unit.mpr ⟨by decide,
      unitNameOk_of_activatable hunit, fun _ => hunit, fun _ => hstop⟩)
  · obtain ⟨enabled, -, unit, -, h⟩ := h
    cases enabled with
    | true =>
      simp only [reduceIte, bind_eq_ok_iff, validatedActivatableUnit_eq_ok, Except.ok.injEq] at h
      obtain ⟨_, ⟨hunit, rfl⟩, rfl⟩ := h
      exact sudoSpec_accepted (hactivate "enable" (by decide) _ hunit)
    | false =>
      simp only [reduceIte, Bool.false_eq_true, bind_eq_ok_iff, validatedUnitName_eq_ok,
        Except.ok.injEq] at h
      obtain ⟨_, ⟨hunit, rfl⟩, rfl⟩ := h
      exact sudoSpec_accepted (hquiet "disable" (by decide) _ hunit)
  · obtain ⟨unit, -, _, ⟨hunit, rfl⟩, rfl⟩ := h
    exact sudoSpec_accepted (hquiet "mask" (by decide) _ hunit)
  · obtain ⟨unit, -, _, ⟨hunit, rfl⟩, rfl⟩ := h
    exact sudoSpec_accepted (hactivate "unmask" (by decide) _ hunit)
  · obtain ⟨unit, -, _, ⟨hunit, rfl⟩, rfl⟩ := h
    exact sudoSpec_accepted (hquiet "reload" (by decide) _ hunit)

/-! ### Accounts, groups and keys -/

theorem accounts_accept {a : HelperAction} (h : a.arm params = .ok spec)
    (ha : a ∈ [.deleteUser, .lockUserAccount, .unlockUserAccount]) : HelperAccepts paths spec := by
  simp only [List.mem_cons, List.not_mem_nil, or_false] at ha
  rcases ha with rfl | rfl | rfl <;>
    simp only [HelperAction.arm, bind_eq_ok_iff, validatedUsernameNotCritical_eq_ok,
      Except.ok.injEq] at h
  all_goals
    obtain ⟨username, -, _, ⟨hname, rfl⟩, rfl⟩ := h
    exact sudoSpec_accepted ((ActionSteps.accepts_account (by decide)).mpr hname)

theorem membership_accepts {a : HelperAction} (h : a.arm params = .ok spec)
    (ha : a ∈ [.addUserToGroup, .removeUserFromGroup]) : HelperAccepts paths spec := by
  simp only [List.mem_cons, List.not_mem_nil, or_false] at ha
  rcases ha with rfl | rfl <;>
    simp only [HelperAction.arm, bind_eq_ok_iff, validatedGroup_eq_ok, validatedUsername_eq_ok,
      Except.ok.injEq] at h
  all_goals
    obtain ⟨username, -, _, ⟨hname, rfl⟩, group, -, _, ⟨hgroup, rfl⟩, rfl⟩ := h
    exact sudoSpec_accepted ((ActionSteps.accepts_membership (by decide)).mpr ⟨hname, hgroup⟩)

theorem keys_accept {a : HelperAction} (h : a.arm params = .ok spec)
    (ha : a ∈ [.addAuthorizedKey, .removeAuthorizedKey]) : HelperAccepts paths spec := by
  simp only [List.mem_cons, List.not_mem_nil, or_false] at ha
  rcases ha with rfl | rfl <;>
    simp only [HelperAction.arm, bind_eq_ok_iff, validatedPublicKey_eq_ok, validatedUsername_eq_ok,
      Except.ok.injEq] at h
  all_goals
    obtain ⟨username, -, _, ⟨hname, rfl⟩, key, -, _, ⟨hkey, rfl⟩, rfl⟩ := h
    exact sudoSpec_accepted ((ActionSteps.accepts_ssh (by decide)).mpr ⟨hkey, hname⟩)

theorem createGroup_accepts (h : HelperAction.createGroup.arm params = .ok spec) :
    HelperAccepts paths spec := by
  simp only [HelperAction.arm, bind_eq_ok_iff, validatedGroup_eq_ok, Except.ok.injEq] at h
  obtain ⟨group, -, _, ⟨hgroup, rfl⟩, system, -, rfl⟩ := h
  exact sudoSpec_accepted (ActionSteps.accepts_groupCreate.mpr hgroup)

theorem deleteGroup_accepts (h : HelperAction.deleteGroup.arm params = .ok spec) :
    HelperAccepts paths spec := by
  simp only [HelperAction.arm, bind_eq_ok_iff, validatedGroupNotCritical_eq_ok,
    Except.ok.injEq] at h
  obtain ⟨group, -, _, ⟨hgroup, rfl⟩, rfl⟩ := h
  exact sudoSpec_accepted (ActionSteps.accepts_groupDelete.mpr hgroup)

/-- An optional value that passes its check. -/
theorem mapM_checked_eq_ok {ok : String → Bool} {param : String} {o o' : Option String} :
    (o.mapM fun s => checked (ok s) s param) = .ok o' ↔ (∀ s ∈ o, ok s = true) ∧ o' = o := by
  cases o with
  | none =>
    simp only [Option.mapM_none, pure, Except.pure, Except.ok.injEq, Option.not_mem_none,
      false_imp_iff, implies_true, true_and]
    exact eq_comm
  | some s =>
    cases hok : ok s with
    | false => simp [checked, hok]
    | true =>
      have hrun : (some s).mapM (fun s => checked (ok s) s param) = .ok (some s) := by
        simp [checked, hok]
      simp only [hrun, Except.ok.injEq, Option.mem_some_iff, forall_eq', hok, true_and]
      exact eq_comm

theorem createUser_accepts (h : HelperAction.createUser.arm params = .ok spec) :
    HelperAccepts paths spec := by
  have hsafe : ∀ {o o' : Option String}, (o.mapM fun s => validatedSafeArg s "shell") = .ok o' ↔
      (∀ s ∈ o, safeArgOk s = true) ∧ o' = o := mapM_checked_eq_ok
  have habsolute : ∀ {o o' : Option String}, (o.mapM fun s => validatedHomeDir s "home") =
      .ok o' ↔ (∀ s ∈ o, absolutePathOk maxFstabFieldLen s = true) ∧ o' = o := mapM_checked_eq_ok
  simp only [HelperAction.arm, bind_eq_ok_iff, validatedUsername_eq_ok, hsafe, habsolute,
    Except.ok.injEq] at h
  obtain ⟨username, -, _, ⟨hname, rfl⟩, shell, -, _, ⟨hshell, rfl⟩, home, -, _, ⟨hhome, rfl⟩,
    rfl⟩ := h
  exact sudoSpec_accepted (ActionSteps.accepts_userCreate.mpr ⟨hname, hhome, hshell⟩)

/-! ### Signals and password ages -/

theorem signal_mem {s signal : String} (h : validatedKillSignal s = .ok signal) :
    signal ∈ ActionSteps.signals := by
  unfold validatedKillSignal at h
  extract_lets normalized name at h
  clear_value name
  obtain ⟨hmem, rfl⟩ := checked_eq_ok.mp h
  exact List.contains_iff_mem.mp hmem

theorem requirePid_bounds {pid : ℕ} (h : requirePid params = .ok pid) :
    2 ≤ pid ∧ pid < 2 ^ 32 := by
  unfold requirePid at h
  extract_lets pid? at h
  clear_value pid?
  cases pid? with
  | none => cases h
  | some n =>
    obtain ⟨hbounds, hn⟩ := ite_error_eq_ok_iff.mp h
    obtain rfl := Except.ok.inj hn
    rw [not_or, Nat.not_lt, Nat.not_le] at hbounds
    exact hbounds

/-- The helper's process numbers are signed. -/
theorem signal_accepts_iff (h : HelperAction.signalProcess.arm params = .ok spec) :
    HelperAccepts paths spec ↔ HelperAction.signalProcess.Agreed paths params := by
  simp only [HelperAction.arm, bind_eq_ok_iff, Except.ok.injEq] at h
  obtain ⟨pid, hpid, _, -, signal, hsignal, rfl⟩ := h
  obtain ⟨hpos, hbound⟩ := requirePid_bounds hpid
  rw [accepts_sudoSpec, ActionSteps.accepts_signal, ActionSteps.killTarget_toString hpos hbound]
  constructor
  · rintro ⟨-, hlt⟩ pid' hpid'
    rw [hpid, Except.ok.injEq] at hpid'
    rwa [← hpid']
  · exact fun hagreed => ⟨signal_mem hsignal, hagreed pid hpid⟩

theorem agingFlag_eq {key flag : String} {flags : List String}
    (h : agingFlag params key flag = .ok flags) :
    ∃ days : Option String, flags = flagged flag days ∧
      ∀ n ∈ days, matchesAll ActionSteps.daysPattern n = true := by
  rw [agingFlag] at h
  obtain ⟨given, -, h⟩ := exists_of_bind_eq_ok h
  cases given with
  | none => exact ⟨none, (Except.ok.inj h).symm, by simp⟩
  | some n =>
    rw [ite_error_eq_ok_iff, Except.ok.injEq] at h
    obtain ⟨hle, rfl⟩ := h
    refine ⟨some (toString n), rfl, fun m hm => ?_⟩
    rw [← Option.mem_some.mp hm]
    exact ActionSteps.matchesAll_days (Nat.not_lt.mp hle)

theorem passwordAging_accepts (h : HelperAction.setPasswordAging.arm params = .ok spec) :
    HelperAccepts paths spec := by
  simp only [HelperAction.arm, bind_eq_ok_iff, validatedUsername_eq_ok] at h
  obtain ⟨user, -, _, ⟨huser, rfl⟩, _, hmax, _, hmin, _, hwarn, h⟩ := h
  obtain ⟨maxDays, rfl, hmaxDays⟩ := agingFlag_eq hmax
  obtain ⟨minDays, rfl, hminDays⟩ := agingFlag_eq hmin
  obtain ⟨warnDays, rfl, hwarnDays⟩ := agingFlag_eq hwarn
  rw [ite_error_eq_ok_iff, Except.ok.injEq, List.isEmpty_iff] at h
  obtain ⟨hsome, rfl⟩ := h
  exact sudoSpec_accepted
    ((ActionSteps.accepts_passwordAging hmaxDays hminDays hwarnDays hsome).mpr huser)

/-! ### Logical volumes -/

theorem volumes_accept {a : HelperAction} (h : a.arm params = .ok spec)
    (ha : a ∈ [.extendLogicalVolume, .createLogicalVolume, .createLvSnapshot]) :
    HelperAccepts paths spec := by
  simp only [List.mem_cons, List.not_mem_nil, or_false] at ha
  rcases ha with rfl | rfl | rfl <;>
    simp only [HelperAction.arm, bind_eq_ok_iff, validatedLvmName_eq_ok, validatedLvmSize_eq_ok,
      Except.ok.injEq] at h
  · obtain ⟨vg, -, _, ⟨hvg, rfl⟩, lv, -, _, ⟨hlv, rfl⟩, size, -, _, ⟨hsize, rfl⟩, rfl⟩ := h
    exact sudoSpec_accepted (ActionSteps.accepts_lvExtend.mpr ⟨hsize, hvg, hlv⟩)
  · obtain ⟨vg, -, _, ⟨hvg, rfl⟩, name, -, _, ⟨hname, rfl⟩, size, -, _, ⟨hsize, rfl⟩, rfl⟩ := h
    exact sudoSpec_accepted (ActionSteps.accepts_lvCreate.mpr ⟨hsize, hname, hvg⟩)
  · obtain ⟨vg, -, _, ⟨hvg, rfl⟩, origin, -, _, ⟨horigin, rfl⟩, snapshot, -, _, ⟨hsnapshot, rfl⟩,
      size, -, _, ⟨hsize, rfl⟩, rfl⟩ := h
    exact sudoSpec_accepted
      (ActionSteps.accepts_lvSnapshot.mpr ⟨hsize, hsnapshot, hvg, horigin⟩)

/-! ### Packages -/

theorem apt_accepts {a : HelperAction} (h : a.arm params = .ok spec)
    (ha : a ∈ [.aptUpdate, .aptUpgrade, .aptInstall, .aptRemove, .aptPurge, .aptAutoremove,
      .aptHold, .aptUnhold]) : HelperAccepts paths spec := by
  simp only [List.mem_cons, List.not_mem_nil, or_false] at ha
  rcases ha with rfl | rfl | rfl | rfl | rfl | rfl | rfl | rfl <;>
    simp only [HelperAction.arm, bind_eq_ok_iff, validatedInstallPackage_eq_ok,
      validatedUnmodifiedPackage_eq_ok, Except.ok.injEq] at h
  case inl | inr.inl | inr.inr.inr.inr.inr.inl =>
    rw [← h, accepts_sudoSpec, ActionSteps.accepts_aptBare]
    decide
  all_goals
    obtain ⟨package, -, _, ⟨hpackage, rfl⟩, rfl⟩ := h
    exact sudoSpec_accepted (ActionSteps.accepts_aptPackage.mpr
      ⟨by decide, by simpa using hpackage⟩)

theorem deployments_accept {a : HelperAction} (h : a.arm params = .ok spec)
    (ha : a ∈ [.addLayeredPackage, .removeLayeredPackage, .replaceLayeredPackage,
      .removeBasePackage, .rebaseSystem]) : HelperAccepts paths spec := by
  simp only [List.mem_cons, List.not_mem_nil, or_false] at ha
  rcases ha with rfl | rfl | rfl | rfl | rfl <;>
    simp only [HelperAction.arm, bind_eq_ok_iff, validatedInstallPackage_eq_ok,
      validatedRebaseRef_eq_ok, Except.ok.injEq] at h
  · obtain ⟨package, -, _, ⟨hpackage, rfl⟩, rfl⟩ := h
    exact deploymentSpec_accepted ((ActionSteps.rpmOstreeArgv_packages (by decide)).mpr
      ⟨by simp, by simpa using hpackage⟩)
  · obtain ⟨package, -, _, ⟨hpackage, rfl⟩, rfl⟩ := h
    exact deploymentSpec_accepted ((ActionSteps.rpmOstreeArgv_packages (by decide)).mpr
      ⟨by simp, by simpa using hpackage⟩)
  · obtain ⟨old, -, _, ⟨hold, rfl⟩, new, -, _, ⟨hnew, rfl⟩, rfl⟩ := h
    exact deploymentSpec_accepted (ActionSteps.rpmOstreeArgv_replace.mpr ⟨hold, hnew⟩)
  · obtain ⟨package, -, _, ⟨hpackage, rfl⟩, rfl⟩ := h
    exact deploymentSpec_accepted (ActionSteps.rpmOstreeArgv_overrideRemove.mpr hpackage)
  · obtain ⟨target, -, _, ⟨htarget, rfl⟩, rfl⟩ := h
    exact deploymentSpec_accepted (ActionSteps.rpmOstreeArgv_rebase.mpr htarget)

/-- The helper wants at least one package. -/
theorem packages_accept_iff {a : HelperAction} (h : a.arm params = .ok spec)
    (ha : a ∈ [.installPackages, .removePackages]) :
    HelperAccepts paths spec ↔ strArrayOrEmpty params "packages" ≠ .ok [] := by
  have hmap : ∀ {l l' : List String}, (l.mapM fun p => validatedInstallPackage p "packages") =
      .ok l' ↔ (∀ p ∈ l, installPackageOk p = true) ∧ l' = l :=
    mapM_eq_ok_iff fun s t => validatedInstallPackage_eq_ok
  simp only [List.mem_cons, List.not_mem_nil, or_false] at ha
  rcases ha with rfl | rfl <;>
    simp only [HelperAction.arm, bind_eq_ok_iff, hmap, Except.ok.injEq] at h
  all_goals
    obtain ⟨packages, hpackages, _, ⟨hall, rfl⟩, rfl⟩ := h
    rw [accepts_deploymentSpec, ActionSteps.rpmOstreeArgv_packages (by decide), hpackages,
      and_iff_left hall, ne_eq, ne_eq, Except.ok.injEq]

theorem kargPairs_append {verb : String} {args rest : List String}
    (h : ∀ arg ∈ args, verb = "append" ∧ safeKernelArgOk arg = true ∨
      verb = "delete" ∧ safeKernelArgRemovalOk arg = true) (hrest : ActionSteps.KargPairs rest) :
    ActionSteps.KargPairs ((args.flatMap fun arg => [verb, arg]) ++ rest) := by
  induction args with
  | nil => exact hrest
  | cons arg args ih =>
    exact ⟨h arg List.mem_cons_self, ih fun arg' hmem => h arg' (List.mem_cons_of_mem _ hmem)⟩

theorem kernelArguments_accept (h : HelperAction.setKernelArguments.arm params = .ok spec) :
    HelperAccepts paths spec := by
  have hadd : ∀ {l l' : List String}, (l.mapM fun arg => validatedSafeKernelArg arg "add") =
      .ok l' ↔ (∀ arg ∈ l, safeKernelArgOk arg = true) ∧ l' = l :=
    mapM_eq_ok_iff fun _ _ => checked_eq_ok
  have hremove : ∀ {l l' : List String},
      (l.mapM fun arg => validatedSafeKernelArgRemoval arg "remove") =
        .ok l' ↔ (∀ arg ∈ l, safeKernelArgRemovalOk arg = true) ∧ l' = l :=
    mapM_eq_ok_iff fun _ _ => checked_eq_ok
  simp only [HelperAction.arm, bind_eq_ok_iff, hadd, hremove, Except.ok.injEq] at h
  obtain ⟨_, -, _, -, add, ⟨hadded, rfl⟩, remove, ⟨hremoved, rfl⟩, rfl⟩ := h
  refine deploymentSpec_accepted (ActionSteps.rpmOstreeArgv_kargs.mpr ?_)
  refine kargPairs_append (fun arg harg => .inl ⟨rfl, hadded arg harg⟩) ?_
  rw [← List.append_nil (List.flatMap _ remove)]
  exact kargPairs_append (fun arg harg => .inr ⟨rfl, hremoved arg harg⟩) trivial

end Parity

end Sysknife
