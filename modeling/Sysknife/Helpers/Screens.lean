import Sysknife.Helpers.Operations

/-!
# What a direct caller of `action-steps` can have

The helper is reachable without the daemon, so its own screens must refuse what the daemon
refuses. `direct_call_built`: every argument vector it accepts for the operations on units, on
packages and deployments, and on protected accounts and groups is one the daemon builds from
some parameters. The one difference is the order of kernel arguments (`daemonOrder`).
-/

namespace Sysknife

open ActionSteps (KargPairs)

/-- The operations that have a screen of their own, by their first words, each with an action
that runs it. -/
def operationActions : List (List String × HelperAction) :=
  [(["unit", "start"], .startService), (["unit", "stop"], .stopService),
    (["unit", "restart"], .restartService), (["unit", "enable"], .setServiceEnabled),
    (["unit", "disable"], .setServiceEnabled), (["unit", "mask"], .maskService),
    (["unit", "unmask"], .unmaskService), (["unit", "reload"], .reloadService),
    (["rpm-ostree", "install"], .installPackages),
    (["rpm-ostree", "uninstall"], .removePackages),
    (["rpm-ostree", "replace"], .replaceLayeredPackage),
    (["rpm-ostree", "override-remove"], .removeBasePackage),
    (["rpm-ostree", "rebase"], .rebaseSystem), (["rpm-ostree", "kargs"], .setKernelArguments),
    (["apt", "update"], .aptUpdate), (["apt", "dist-upgrade"], .aptUpgrade),
    (["apt", "autoremove"], .aptAutoremove), (["apt", "install"], .aptInstall),
    (["apt", "remove"], .aptRemove), (["apt", "purge"], .aptPurge), (["apt", "hold"], .aptHold),
    (["apt", "unhold"], .aptUnhold), (["user-lock"], .lockUserAccount),
    (["user-unlock"], .unlockUserAccount), (["user-delete"], .deleteUser),
    (["group-delete"], .deleteGroup)]

/-- The corresponding action builds, from some parameters, the command line that runs the helper
with these arguments. -/
def Built (args : List String) : Prop :=
  ∃ e ∈ operationActions, e.1 <+: args ∧ ∃ (params : Value) (spec : ActionSpec),
    e.2.buildActionSpec params = .ok spec ∧
      spec.mechanism = .command "sudo" (actionSteps :: args)

/-- The operations with a screen of their own. -/
def screenedOps : List String :=
  ["unit", "rpm-ostree", "apt", "user-lock", "user-unlock", "user-delete", "group-delete"]

/-- The arguments of one verb among the pairs of `kargs`. -/
def kargsOf (verb : String) : List String → List String
  | op :: token :: rest => if op = verb then token :: kargsOf verb rest else kargsOf verb rest
  | _ => []

/-- The daemon writes the kernel arguments to append before those to delete; everything else
stands as it is. -/
def daemonOrder (args : List String) : List String :=
  if args.take 2 = ["rpm-ostree", "kargs"] then
    ["rpm-ostree", "kargs"] ++ ((kargsOf "append" (args.drop 2)).flatMap fun arg => ["append", arg])
      ++ (kargsOf "delete" (args.drop 2)).flatMap fun arg => ["delete", arg]
  else args

section Build

variable {a : HelperAction} {members : List (String × Value)}

/-- Members the action knows are no obstacle. -/
theorem buildActionSpec_obj (hmembers : ∀ m ∈ members, m.1 ∈ a.allowedParams) :
    a.buildActionSpec (.obj members) = a.arm (.obj members) := by
  have hknown : (members.any fun m => !a.allowedParams.contains m.1) = false := by
    rw [List.any_eq_false]
    intro m hm
    simp [hmembers m hm]
  have hvalid : validateActionParams a (.obj members) = .ok () := by
    simp only [validateActionParams, Value.asObject, orInvalid, ok_bind]
    rw [hknown, if_neg Bool.false_ne_true]
  rw [HelperAction.buildActionSpec, hvalid, ok_bind]

/-- An action that takes these parameters and runs the helper with the words it stands for. -/
theorem built_of_arm {spec : ActionSpec} (start rest : List String)
    (hop : (start, a) ∈ operationActions) (harm : a.arm (.obj members) = .ok spec)
    (hmembers : ∀ m ∈ members, m.1 ∈ a.allowedParams)
    (hargs : spec.mechanism = .command "sudo" (actionSteps :: (start ++ rest))) :
    Built (start ++ rest) :=
  ⟨(start, a), hop, List.prefix_append start rest, .obj members, spec,
    (buildActionSpec_obj hmembers).trans harm, hargs⟩

variable (a) in
/-- An action with one text, which its check lets pass and which ends the command line. -/
theorem built_of_checked {s : String} {read : Value → Except ExecutorError String}
    {check : String → Except ExecutorError String} {build : String → ActionSpec}
    (start : List String)
    (harm : ∀ params, a.arm params = (do
      let t ← check (← read params)
      .ok (build t)))
    (hop : (start, a) ∈ operationActions) (hread : read (.obj members) = .ok s)
    (hcheck : check s = .ok s) (hmembers : ∀ m ∈ members, m.1 ∈ a.allowedParams)
    (hargs : (build s).mechanism = .command "sudo" (actionSteps :: (start ++ [s]))) :
    Built (start ++ [s]) := by
  have hspec : a.arm (.obj members) = .ok (build s) := by
    rw [harm, hread, ok_bind, hcheck, ok_bind]
  exact built_of_arm start [s] hop hspec hmembers hargs

/-- A text member is read back. -/
theorem requireStr_obj {key s : String} (h : members.lookup key = some (.str s)) :
    requireStr (.obj members) key = .ok s := by
  simp [requireStr, requireWith, Value.get, h, orInvalid, Value.asStr]

theorem mapM_asStr (items : List String) : (items.map Value.str).mapM Value.asStr = some items := by
  induction items with
  | nil => rfl
  | cons item items ih => simp [Value.asStr, ih]

/-- A list of texts is read back. -/
theorem strArrayOrEmpty_obj {key : String} {items : List String}
    (h : members.lookup key = some (.arr (items.map .str))) :
    strArrayOrEmpty (.obj members) key = .ok items := by
  have hread : (Value.arr (items.map .str)).asStrings = some items := mapM_asStr items
  simp [strArrayOrEmpty, optionalWith, Value.get, h, orInvalid, hread, Except.map]

end Build

/-! ### One operation at a time -/

section Operations

variable {verb unit name group package old new target : String}

/-- The actions on one unit, by verb. -/
theorem built_unit (hverb : verb ∈ ActionSteps.activatingVerbs ++ ActionSteps.quiescingVerbs)
    (hunit : unitNameOk unit = true)
    (hactivating : verb ∈ ActionSteps.activatingVerbs → activatableUnitOk unit = true)
    (hstopping : verb ∈ ActionSteps.stoppingVerbs → stoppableUnitOk unit = true) :
    Built ["unit", verb, unit] := by
  have hread : requireStr (.obj [("unit", .str unit)]) "unit" = .ok unit := requireStr_obj rfl
  have hread' : ∀ b, requireStr (.obj [("enabled", .bool b), ("unit", .str unit)]) "unit" =
      .ok unit := fun b => requireStr_obj rfl
  have henabled : ∀ b, requireBool (.obj [("enabled", .bool b), ("unit", .str unit)]) "enabled" =
      .ok b := fun b => rfl
  have hname : validatedUnitName unit "unit" = .ok unit :=
    validatedUnitName_eq_ok.mpr ⟨hunit, rfl⟩
  have hactivatable : verb ∈ ActionSteps.activatingVerbs →
      validatedActivatableUnit unit "unit" = .ok unit := fun hmem =>
    validatedActivatableUnit_eq_ok.mpr ⟨hactivating hmem, rfl⟩
  have hstoppable : verb ∈ ActionSteps.stoppingVerbs →
      validatedStoppableUnit unit "unit" = .ok unit := fun hmem =>
    validatedStoppableUnit_eq_ok.mpr ⟨hstopping hmem, rfl⟩
  simp only [ActionSteps.activatingVerbs, ActionSteps.quiescingVerbs, List.cons_append,
    List.nil_append, List.mem_cons, List.not_mem_nil, or_false] at hverb
  rcases hverb with rfl | rfl | rfl | rfl | rfl | rfl | rfl | rfl
  · exact built_of_checked .startService ["unit", "start"] (fun _ => rfl) (by decide) hread
      (hactivatable (by decide)) (by simp [HelperAction.allowedParams]) rfl
  -- A restart starts and stops, so the unit passes both screens.
  · have harm : HelperAction.restartService.arm (.obj [("unit", .str unit)]) =
        .ok (sudoSpec "RestartService" .medium [actionSteps, "unit", "restart", unit]) := by
      rw [HelperAction.arm, hread, ok_bind, hactivatable (by decide), ok_bind,
        hstoppable (by decide), ok_bind]
    exact built_of_arm ["unit", "restart"] [unit] (by decide) harm
      (by simp [HelperAction.allowedParams]) rfl
  · have harm : HelperAction.setServiceEnabled.arm
        (.obj [("enabled", .bool true), ("unit", .str unit)]) =
          .ok (sudoSpec "SetServiceEnabled" .medium [actionSteps, "unit", "enable", unit]) := by
      simp only [HelperAction.arm, henabled, hread', ok_bind, reduceIte, hactivatable (by decide)]
    exact built_of_arm ["unit", "enable"] [unit] (by decide) harm
      (by simp [HelperAction.allowedParams]) rfl
  · exact built_of_checked .unmaskService ["unit", "unmask"] (fun _ => rfl) (by decide) hread
      (hactivatable (by decide)) (by simp [HelperAction.allowedParams]) rfl
  · exact built_of_checked .stopService ["unit", "stop"] (fun _ => rfl) (by decide) hread
      (hstoppable (by decide)) (by simp [HelperAction.allowedParams]) rfl
  · have harm : HelperAction.setServiceEnabled.arm
        (.obj [("enabled", .bool false), ("unit", .str unit)]) =
          .ok (sudoSpec "SetServiceEnabled" .medium [actionSteps, "unit", "disable", unit]) := by
      simp only [HelperAction.arm, henabled, hread', ok_bind, reduceIte, Bool.false_eq_true, hname]
    exact built_of_arm ["unit", "disable"] [unit] (by decide) harm
      (by simp [HelperAction.allowedParams]) rfl
  · exact built_of_checked .maskService ["unit", "mask"] (fun _ => rfl) (by decide) hread
      hname (by simp [HelperAction.allowedParams]) rfl
  · exact built_of_checked .reloadService ["unit", "reload"] (fun _ => rfl) (by decide) hread
      hname (by simp [HelperAction.allowedParams]) rfl

/-- The operations on one account that is not a critical one. -/
theorem built_account {op : String} (hop : op ∈ ["user-delete", "user-lock", "user-unlock"])
    (hname : (usernameOk name && !criticalAccounts.contains name) = true) :
    Built [op, name] := by
  have hread : resolveUsername (.obj [("username", .str name)]) = .ok name := rfl
  have hvalid : validatedUsernameNotCritical name "username" = .ok name :=
    validatedUsernameNotCritical_eq_ok.mpr ⟨hname, rfl⟩
  simp only [List.mem_cons, List.not_mem_nil, or_false] at hop
  rcases hop with rfl | rfl | rfl
  · exact built_of_checked .deleteUser ["user-delete"] (fun _ => rfl) (by decide) hread
      hvalid (by simp [HelperAction.allowedParams]) rfl
  · exact built_of_checked .lockUserAccount ["user-lock"] (fun _ => rfl) (by decide) hread
      hvalid (by simp [HelperAction.allowedParams]) rfl
  · exact built_of_checked .unlockUserAccount ["user-unlock"] (fun _ => rfl) (by decide) hread
      hvalid (by simp [HelperAction.allowedParams]) rfl

theorem built_groupDelete (hgroup : (usernameOk group && !criticalGroups.contains group) = true) :
    Built ["group-delete", group] := by
  have hread : requireStr (.obj [("group", .str group)]) "group" = .ok group := requireStr_obj rfl
  have hvalid : validatedGroupNotCritical group "group" = .ok group :=
    validatedGroupNotCritical_eq_ok.mpr ⟨hgroup, rfl⟩
  exact built_of_checked .deleteGroup ["group-delete"] (fun _ => rfl) (by decide) hread hvalid
    (by simp [HelperAction.allowedParams]) rfl

theorem built_aptBare (hverb : verb ∈ ActionSteps.aptBare.map Prod.fst) : Built ["apt", verb] := by
  have hcases : verb = "update" ∨ verb = "dist-upgrade" ∨ verb = "autoremove" := by
    simpa [ActionSteps.aptBare] using hverb
  have hnone : ∀ a : HelperAction, ∀ m ∈ ([] : List (String × Value)), m.1 ∈ a.allowedParams :=
    fun a m hm => absurd hm List.not_mem_nil
  rcases hcases with rfl | rfl | rfl
  · exact built_of_arm (a := .aptUpdate) ["apt", "update"] [] (by decide) rfl (hnone _) rfl
  · exact built_of_arm (a := .aptUpgrade) ["apt", "dist-upgrade"] [] (by decide) rfl (hnone _) rfl
  · exact built_of_arm (a := .aptAutoremove) ["apt", "autoremove"] [] (by decide) rfl (hnone _)
      rfl

/-- The operations on one package; a trailing `+` is for `install` alone. -/
theorem built_aptPackage (hverb : verb ∈ ActionSteps.aptWithPackage)
    (hpackage : (installPackageOk package && (verb == "install" || !Text.endsWith "+" package)) =
      true) : Built ["apt", verb, package] := by
  have hread : requireStr (.obj [("package", .str package)]) "package" = .ok package :=
    requireStr_obj rfl
  have hunmodified : verb ≠ "install" → validatedUnmodifiedPackage package "package" =
      .ok package := by
    intro hne
    refine validatedUnmodifiedPackage_eq_ok.mpr ⟨?_, rfl⟩
    simpa [hne] using hpackage
  simp only [ActionSteps.aptWithPackage, List.mem_cons, List.not_mem_nil, or_false] at hverb
  rcases hverb with rfl | rfl | rfl | rfl | rfl
  · have hinstall : validatedInstallPackage package "package" = .ok package :=
      validatedInstallPackage_eq_ok.mpr ⟨by simpa using hpackage, rfl⟩
    exact built_of_checked .aptInstall ["apt", "install"] (fun _ => rfl) (by decide) hread
      hinstall (by simp [HelperAction.allowedParams]) rfl
  · exact built_of_checked .aptRemove ["apt", "remove"] (fun _ => rfl) (by decide) hread
      (hunmodified (by decide)) (by simp [HelperAction.allowedParams]) rfl
  · exact built_of_checked .aptPurge ["apt", "purge"] (fun _ => rfl) (by decide) hread
      (hunmodified (by decide)) (by simp [HelperAction.allowedParams]) rfl
  · exact built_of_checked .aptHold ["apt", "hold"] (fun _ => rfl) (by decide) hread
      (hunmodified (by decide)) (by simp [HelperAction.allowedParams]) rfl
  · exact built_of_checked .aptUnhold ["apt", "unhold"] (fun _ => rfl) (by decide) hread
      (hunmodified (by decide)) (by simp [HelperAction.allowedParams]) rfl

/-- Layering and unlayering a list of packages. -/
theorem built_packages {packages : List String} (hverb : verb ∈ ["install", "uninstall"])
    (hpackages : ∀ p ∈ packages, installPackageOk p = true) :
    Built ("rpm-ostree" :: verb :: packages) := by
  have hread : strArrayOrEmpty (.obj [("packages", .arr (packages.map .str))]) "packages" =
      .ok packages := strArrayOrEmpty_obj rfl
  have hall : (packages.mapM fun p => validatedInstallPackage p "packages") = .ok packages :=
    (mapM_eq_ok_iff fun s t => validatedInstallPackage_eq_ok).mpr ⟨hpackages, rfl⟩
  simp only [List.mem_cons, List.not_mem_nil, or_false] at hverb
  rcases hverb with rfl | rfl
  · have harm : HelperAction.installPackages.arm (.obj [("packages", .arr (packages.map .str))]) =
        .ok (deploymentSpec "InstallPackages" ("install" :: packages)) := by
      rw [HelperAction.arm, hread, ok_bind, hall, ok_bind]
    exact built_of_arm ["rpm-ostree", "install"] packages (by decide) harm
      (by simp [HelperAction.allowedParams]) rfl
  · have harm : HelperAction.removePackages.arm (.obj [("packages", .arr (packages.map .str))]) =
        .ok (deploymentSpec "RemovePackages" ("uninstall" :: packages)) := by
      rw [HelperAction.arm, hread, ok_bind, hall, ok_bind]
    exact built_of_arm ["rpm-ostree", "uninstall"] packages (by decide) harm
      (by simp [HelperAction.allowedParams]) rfl

theorem built_replace (hold : installPackageOk old = true) (hnew : installPackageOk new = true) :
    Built ["rpm-ostree", "replace", old, new] := by
  have harm : HelperAction.replaceLayeredPackage.arm (.obj [("new", .str new), ("old", .str old)]) =
      .ok (deploymentSpec "ReplaceLayeredPackage" ["replace", old, new]) := by
    rw [HelperAction.arm, requireStr_obj rfl, ok_bind,
      validatedInstallPackage_eq_ok.mpr ⟨hold, rfl⟩, ok_bind, requireStr_obj rfl, ok_bind,
      validatedInstallPackage_eq_ok.mpr ⟨hnew, rfl⟩, ok_bind]
  exact built_of_arm ["rpm-ostree", "replace"] [old, new] (by decide) harm
    (by simp [HelperAction.allowedParams]) rfl

theorem built_overrideRemove (hpackage : installPackageOk package = true) :
    Built ["rpm-ostree", "override-remove", package] := by
  have hread : requireStr (.obj [("package", .str package)]) "package" = .ok package :=
    requireStr_obj rfl
  have hvalid : validatedInstallPackage package "package" = .ok package :=
    validatedInstallPackage_eq_ok.mpr ⟨hpackage, rfl⟩
  exact built_of_checked .removeBasePackage ["rpm-ostree", "override-remove"] (fun _ => rfl)
    (by decide) hread hvalid (by simp [HelperAction.allowedParams]) rfl

theorem built_rebase (htarget : rebaseRefOk target = true) :
    Built ["rpm-ostree", "rebase", target] := by
  have hread : requireStr (.obj [("target_ref", .str target)]) "target_ref" = .ok target :=
    requireStr_obj rfl
  have hvalid : validatedRebaseRef target "target_ref" = .ok target :=
    validatedRebaseRef_eq_ok.mpr ⟨htarget, rfl⟩
  exact built_of_checked .rebaseSystem ["rpm-ostree", "rebase"] (fun _ => rfl) (by decide) hread
    hvalid (by simp [HelperAction.allowedParams]) rfl

/-! ### Kernel arguments -/

/-- The pairs of `kargs` hold only arguments that may be added or removed. -/
theorem kargsOf_ok {operands : List String} (h : KargPairs operands) :
    (∀ arg ∈ kargsOf "append" operands, safeKernelArgOk arg = true) ∧
      ∀ arg ∈ kargsOf "delete" operands, safeKernelArgRemovalOk arg = true := by
  induction operands using ActionSteps.kargOptions.induct with
  | case1 op token rest ih =>
    obtain ⟨hpair, hrest⟩ := h
    obtain ⟨happend, hdelete⟩ := ih hrest
    have hne : "delete" ≠ "append" := by decide
    -- Each pair goes to the arguments of its own verb and leaves the others as they are.
    rcases hpair with ⟨rfl, htoken⟩ | ⟨rfl, htoken⟩
    · refine ⟨?_, ?_⟩
      · rw [kargsOf, if_pos rfl, List.forall_mem_cons]
        exact ⟨htoken, happend⟩
      · rwa [kargsOf, if_neg hne.symm]
    · refine ⟨?_, ?_⟩
      · rwa [kargsOf, if_neg hne]
      · rw [kargsOf, if_pos rfl, List.forall_mem_cons]
        exact ⟨htoken, hdelete⟩
  | case2 operands hshort =>
    rcases operands with _ | ⟨op, _ | ⟨token, rest⟩⟩
    · simp [kargsOf]
    · simp [kargsOf]
    · exact absurd rfl (hshort op token rest)

theorem built_kargs {operands : List String} (h : KargPairs operands) :
    Built (daemonOrder ("rpm-ostree" :: "kargs" :: operands)) := by
  obtain ⟨happend, hdelete⟩ := kargsOf_ok h
  let members : List (String × Value) :=
    [("add", .arr ((kargsOf "append" operands).map .str)),
      ("remove", .arr ((kargsOf "delete" operands).map .str))]
  have hadd : strArrayOrEmpty (.obj members) "add" = .ok (kargsOf "append" operands) :=
    strArrayOrEmpty_obj rfl
  have hremove : strArrayOrEmpty (.obj members) "remove" = .ok (kargsOf "delete" operands) :=
    strArrayOrEmpty_obj rfl
  have hadded : (kargsOf "append" operands).mapM (fun arg => validatedSafeKernelArg arg "add") =
      .ok (kargsOf "append" operands) :=
    (mapM_eq_ok_iff fun _ _ => validatedSafeKernelArg_eq_ok).mpr ⟨happend, rfl⟩
  have hremoved : (kargsOf "delete" operands).mapM
      (fun arg => validatedSafeKernelArgRemoval arg "remove") = .ok (kargsOf "delete" operands) :=
    (mapM_eq_ok_iff fun _ _ => validatedSafeKernelArgRemoval_eq_ok).mpr ⟨hdelete, rfl⟩
  have harm : HelperAction.setKernelArguments.arm (.obj members) =
      .ok (deploymentSpec "SetKernelArguments" ("kargs" ::
        ((kargsOf "append" operands).flatMap fun arg => ["append", arg]) ++
          (kargsOf "delete" operands).flatMap fun arg => ["delete", arg])) := by
    rw [HelperAction.arm, hadd, ok_bind, hremove, ok_bind, hadded, ok_bind, hremoved, ok_bind]
  exact built_of_arm ["rpm-ostree", "kargs"] _ (by decide) harm
    (by simp [members, HelperAction.allowedParams]) rfl

end Operations

/-! ### Every screened operation -/

section Direct

variable {values : List String}

/-- Only `kargs` is written in an order of its own. -/
theorem daemonOrder_eq {args : List String} (h : args.take 2 ≠ ["rpm-ostree", "kargs"]) :
    daemonOrder args = args := if_neg h

theorem direct_unit (h : ActionSteps.Accepts ("unit" :: values)) :
    Built (daemonOrder ("unit" :: values)) := by
  rw [daemonOrder_eq (by simp)]
  match values, h with
  | [verb, unit], h =>
    obtain ⟨hverb, hunit, hactivating, hstopping⟩ := ActionSteps.accepts_unit.mp h
    exact built_unit hverb hunit hactivating hstopping
  -- With any other number of values the operation has no form.
  | [], h | [_], h | _ :: _ :: _ :: _, h =>
    obtain ⟨_, h⟩ := h
    cases h

theorem direct_account {op : String} (hop : op ∈ ["user-delete", "user-lock", "user-unlock"])
    (h : ActionSteps.Accepts (op :: values)) : Built (daemonOrder (op :: values)) := by
  have hfirst : op ≠ "rpm-ostree" := by
    rintro rfl
    exact absurd hop (by decide)
  rw [daemonOrder_eq (by simp [hfirst])]
  match values, h with
  | [name], h => exact built_account hop ((ActionSteps.accepts_account hop).mp h)
  | [], h | _ :: _ :: _, h =>
    simp only [List.mem_cons, List.not_mem_nil, or_false] at hop
    obtain ⟨_, h⟩ := h
    rcases hop with rfl | rfl | rfl <;> cases h

theorem direct_group (h : ActionSteps.Accepts ("group-delete" :: values)) :
    Built (daemonOrder ("group-delete" :: values)) := by
  rw [daemonOrder_eq (by simp)]
  match values, h with
  | [group], h => exact built_groupDelete (ActionSteps.accepts_groupDelete.mp h)
  | [], h | _ :: _ :: _, h =>
    obtain ⟨_, h⟩ := h
    cases h

theorem direct_apt (h : ActionSteps.Accepts ("apt" :: values)) :
    Built (daemonOrder ("apt" :: values)) := by
  rw [daemonOrder_eq (by simp)]
  match values, h with
  | [verb], h => exact built_aptBare (ActionSteps.accepts_aptBare.mp h)
  | [verb, package], h =>
    obtain ⟨hverb, hpackage⟩ := ActionSteps.accepts_aptPackage.mp h
    exact built_aptPackage hverb hpackage
  | [], h | _ :: _ :: _ :: _, h =>
    obtain ⟨_, h⟩ := h
    cases h

theorem direct_rpmOstree (h : ActionSteps.Accepts ("rpm-ostree" :: values)) :
    Built (daemonOrder ("rpm-ostree" :: values)) := by
  have hargv := ActionSteps.accepts_rpmOstree.mp h
  obtain _ | ⟨verb, operands⟩ := values
  · obtain ⟨_, hargv⟩ := hargv
    cases hargv
  have hverb : verb ∈ ActionSteps.rpmOstreeVerbs := by
    obtain ⟨argv, hargv⟩ := hargv
    simp only [ActionSteps.rpmOstreeArgv, ite_error_eq_ok_iff] at hargv
    simpa using hargv.1
  have horder : verb ≠ "kargs" → daemonOrder ("rpm-ostree" :: verb :: operands) =
      "rpm-ostree" :: verb :: operands := by
    intro hne
    exact daemonOrder_eq (by simp [hne])
  -- Two verbs take a list of packages, and every other one has operands of its own.
  have hcases : verb ∈ ["install", "uninstall"] ∨ verb = "replace" ∨ verb = "override-remove" ∨
      verb = "rebase" ∨ verb = "kargs" := by
    simpa [ActionSteps.rpmOstreeVerbs, or_assoc] using hverb
  rcases hcases with hlist | rfl | rfl | rfl | rfl
  · have hne : verb ≠ "kargs" := by
      rintro rfl
      exact absurd hlist (by decide)
    rw [horder hne]
    exact built_packages hlist ((ActionSteps.rpmOstreeArgv_packages hlist).mp hargv).2
  · rw [horder (by decide)]
    match operands, hargv with
    | [old, new], hargv =>
      obtain ⟨hold, hnew⟩ := ActionSteps.rpmOstreeArgv_replace.mp hargv
      exact built_replace hold hnew
    | [], hargv | [_], hargv | _ :: _ :: _ :: _, hargv =>
      obtain ⟨_, hargv⟩ := hargv
      cases hargv
  · rw [horder (by decide)]
    match operands, hargv with
    | [package], hargv =>
      exact built_overrideRemove (ActionSteps.rpmOstreeArgv_overrideRemove.mp hargv)
    | [], hargv | _ :: _ :: _, hargv =>
      obtain ⟨_, hargv⟩ := hargv
      cases hargv
  · rw [horder (by decide)]
    match operands, hargv with
    | [target], hargv => exact built_rebase (ActionSteps.rpmOstreeArgv_rebase.mp hargv)
    | [], hargv | _ :: _ :: _, hargv =>
      obtain ⟨_, hargv⟩ := hargv
      cases hargv
  · exact built_kargs (ActionSteps.rpmOstreeArgv_kargs.mp hargv)

/-- **The helper's screens are no weaker than the daemon's.** What `action-steps` accepts for a
screened operation is a command line some action builds, kernel arguments put in its order. -/
theorem direct_call_built {op : String} (hop : op ∈ screenedOps)
    (h : ActionSteps.Accepts (op :: values)) : Built (daemonOrder (op :: values)) := by
  simp only [screenedOps, List.mem_cons, List.not_mem_nil, or_false] at hop
  rcases hop with rfl | rfl | rfl | rfl | rfl | rfl | rfl
  · exact direct_unit h
  · exact direct_rpmOstree h
  · exact direct_apt h
  · exact direct_account (by decide) h
  · exact direct_account (by decide) h
  · exact direct_account (by decide) h
  · exact direct_group h

/-- A deletion written before an addition. -/
theorem accepts_quietSplash :
    ActionSteps.Accepts ["rpm-ostree", "kargs", "delete", "quiet", "append", "splash"] := by
  have hpairs : KargPairs ["delete", "quiet", "append", "splash"] := by
    refine ⟨.inr ⟨rfl, ?_⟩, .inl ⟨rfl, ?_⟩, trivial⟩ <;> decide
  exact ActionSteps.accepts_rpmOstree.mpr (ActionSteps.rpmOstreeArgv_kargs.mpr hpairs)

theorem direct_call_built_kargs :
    "rpm-ostree" ∈ screenedOps ∧
      ActionSteps.Accepts ["rpm-ostree", "kargs", "delete", "quiet", "append", "splash"] ∧
        Built ["rpm-ostree", "kargs", "append", "splash", "delete", "quiet"] :=
  ⟨by decide, accepts_quietSplash, direct_call_built (by decide) accepts_quietSplash⟩

/-- The daemon's own order of kernel arguments. -/
theorem kargs_of_build {params : Value} {spec : ActionSpec} {operands : List String}
    (h : HelperAction.setKernelArguments.buildActionSpec params = .ok spec)
    (hargs : spec.mechanism = .command "sudo" ([actionSteps, "rpm-ostree", "kargs"] ++ operands)) :
    ∃ add remove : List String, operands = (add.flatMap fun arg => ["append", arg]) ++
      remove.flatMap fun arg => ["delete", arg] := by
  obtain ⟨_, -, harm⟩ := exists_of_bind_eq_ok h
  simp only [HelperAction.arm, bind_eq_ok_iff, Except.ok.injEq] at harm
  obtain ⟨_, -, _, -, add, -, remove, -, rfl⟩ := harm
  refine ⟨add, remove, ?_⟩
  simpa [deploymentSpec, eq_comm] using hargs

/-- The helper takes the operands of `kargs` in any order, and the daemon writes one. -/
theorem kargs_order_differs : ¬ ∀ op ∈ screenedOps, ∀ values : List String,
    ActionSteps.Accepts (op :: values) → Built (op :: values) := by
  intro h
  obtain ⟨e, he, hstart, params, spec, hbuild, hargs⟩ :=
    h "rpm-ostree" (by decide) _ accepts_quietSplash
  have haction : ∀ e ∈ operationActions,
      e.1 <+: ["rpm-ostree", "kargs", "delete", "quiet", "append", "splash"] →
        e.2 = .setKernelArguments := by decide
  rw [haction e he hstart] at hbuild
  obtain ⟨add, remove, horder⟩ := kargs_of_build hbuild hargs
  -- an added argument would come first, and two deleted ones say `delete` twice
  rcases add with _ | ⟨arg, add⟩
  · rcases remove with _ | ⟨arg, _ | ⟨arg', remove⟩⟩
    · simp at horder
    · simp at horder
    · simp at horder
  · simp at horder

end Direct

end Sysknife
