import Sysknife.Actions.Build
import Sysknife.Helpers.EditGrammars

/-!
# What argument vectors `action-steps` accepts

Operation by operation, in terms of the daemon's checks on the operands
(`ActionSteps.accepts_unit` and its kin). The operations are equivalences, so they say as well
which operands a direct caller of the helper can have.
-/

namespace Sysknife

open Text
open ActionSteps (orRaise matchesAll orRaise_eq_ok)

/-- A check on every item hands the list back. -/
theorem mapM_eq_ok_iff {ε : Type} {f : String → Except ε String} {ok : String → Bool}
    (hf : ∀ s t, f s = .ok t ↔ ok s = true ∧ t = s) {l l' : List String} :
    l.mapM f = .ok l' ↔ (∀ s ∈ l, ok s = true) ∧ l' = l := by
  induction l generalizing l' with
  | nil =>
    simp only [List.mapM_nil, pure, Except.pure, Except.ok.injEq, List.not_mem_nil, false_imp_iff,
      implies_true, true_and]
    exact eq_comm
  | cons s l ih =>
    simp only [List.mapM_cons, bind_eq_ok_iff, hf, ih, pure, Except.pure, Except.ok.injEq,
      List.forall_mem_cons]
    constructor
    · rintro ⟨_, ⟨hs, rfl⟩, _, ⟨hl, rfl⟩, rfl⟩
      exact ⟨⟨hs, hl⟩, rfl⟩
    · rintro ⟨⟨hs, hl⟩, rfl⟩
      exact ⟨s, ⟨hs, rfl⟩, l, ⟨hl, rfl⟩, rfl⟩

namespace ActionSteps

variable {name group key verb : String}

theorem accepts_unit {unit : String} :
    Accepts ["unit", verb, unit] ↔
      verb ∈ activatingVerbs ++ quiescingVerbs ∧ unitNameOk unit = true ∧
        (verb ∈ activatingVerbs → activatableUnitOk unit = true) ∧
          (verb ∈ stoppingVerbs → stoppableUnitOk unit = true) := by
  have hverb : ¬(!activatingVerbs.contains verb && !quiescingVerbs.contains verb) = true ↔
      verb ∈ activatingVerbs ++ quiescingVerbs := by
    simp only [Bool.and_eq_true, Bool.not_eq_true', ← Bool.not_eq_true, List.contains_iff_mem,
      List.mem_append]
    tauto
  simp only [Accepts, main_unit, unitVerb, ite_error_eq_ok_iff, bind_eq_ok_iff, unitName_eq_ok,
    hverb]
  by_cases ha : verb ∈ activatingVerbs <;> by_cases hs : verb ∈ stoppingVerbs <;>
    simp [ha, hs, bind_eq_ok_iff, activatableUnit_eq_ok, stoppableUnit_eq_ok, ok_bind]

/-- The operations on one account. -/
theorem accepts_account {op : String} (hop : op ∈ ["user-delete", "user-lock", "user-unlock"]) :
    Accepts [op, name] ↔ (usernameOk name && !Sysknife.criticalAccounts.contains name) = true := by
  have hcritical : criticalAccounts = Sysknife.criticalAccounts := rfl
  simp only [List.mem_cons, List.not_mem_nil, or_false] at hop
  rcases hop with rfl | rfl | rfl <;>
    simp [Accepts, userDelete, userLock, bind_eq_ok_iff, username_eq_ok, ite_error_eq_ok_iff,
      hcritical]

theorem accepts_groupDelete :
    Accepts ["group-delete", group] ↔
      (usernameOk group && !Sysknife.criticalGroups.contains group) = true := by
  have hcritical : criticalGroups = Sysknife.criticalGroups := rfl
  simp [Accepts, groupDelete, bind_eq_ok_iff, username_eq_ok, ite_error_eq_ok_iff, hcritical]

theorem accepts_groupCreate {system : Bool} :
    Accepts (["group-create"] ++ (if system then ["--system"] else []) ++ [group]) ↔
      usernameOk group = true := by
  cases system <;> simp [Accepts, groupCreate, bind_eq_ok_iff, username_eq_ok]

theorem accepts_membership {op : String} (hop : op ∈ ["group-add", "group-remove"]) :
    Accepts [op, name, group] ↔ usernameOk name = true ∧ usernameOk group = true := by
  simp only [List.mem_cons, List.not_mem_nil, or_false] at hop
  rcases hop with rfl | rfl <;> simp [Accepts, membership, bind_eq_ok_iff, username_eq_ok]

theorem accepts_ssh {op : String} (hop : op ∈ ["ssh-add", "ssh-remove"]) :
    Accepts [op, name, key] ↔ publicKeyOk key = true ∧ usernameOk name = true := by
  simp only [List.mem_cons, List.not_mem_nil, or_false] at hop
  rcases hop with rfl | rfl <;>
    simp [Accepts, authorizedKey, bind_eq_ok_iff, username_eq_ok, publicKey_eq_ok]

theorem accepts_userCreate {home shell : Option String} :
    Accepts (["user-create", name] ++ flagged "--home-dir" home ++ flagged "--shell" shell) ↔
      usernameOk name = true ∧ (∀ h ∈ home, absolutePathOk maxFstabFieldLen h = true) ∧
        ∀ s ∈ shell, safeArgOk s = true := by
  cases home <;> cases shell <;>
    simp [Accepts, userCreate, flagged, userOptions, bind_eq_ok_iff, username_eq_ok, safe_eq_ok,
      absolutePath_eq_ok]

theorem accepts_signal {signal target : String} :
    Accepts ["signal", signal, target] ↔
      signal ∈ signals ∧ ∃ pid, killTarget target = .ok pid := by
  simp only [Accepts, main_signal, sendSignal, bind_eq_ok_iff, ite_error_eq_ok_iff]
  simp

theorem accepts_lvExtend {vg lv size : String} :
    Accepts ["lv-extend", vg, lv, size] ↔
      lvmSizeOk size = true ∧ lvmNameOk vg = true ∧ lvmNameOk lv = true := by
  simp [Accepts, lvExtend, bind_eq_ok_iff, lvmName_eq_ok, lvmSize_eq_ok]

theorem accepts_lvCreate {vg lv size : String} :
    Accepts ["lv-create", vg, lv, size] ↔
      lvmSizeOk size = true ∧ lvmNameOk lv = true ∧ lvmNameOk vg = true := by
  simp [Accepts, lvCreate, bind_eq_ok_iff, lvmName_eq_ok, lvmSize_eq_ok]

theorem accepts_lvSnapshot {vg origin snapshot size : String} :
    Accepts ["lv-snapshot", vg, origin, snapshot, size] ↔
      lvmSizeOk size = true ∧ lvmNameOk snapshot = true ∧ lvmNameOk vg = true ∧
        lvmNameOk origin = true := by
  simp [Accepts, lvSnapshot, bind_eq_ok_iff, lvmName_eq_ok, lvmSize_eq_ok]

theorem accepts_aging {options : List String} :
    Accepts ("password-aging" :: name :: options) ↔
      options.length ∈ [2, 4, 6] ∧ usernameOk name = true ∧
        ∃ flags, agingOptions [] options = .ok flags := by
  have hlen : ¬(!([2, 4, 6].contains options.length)) = true ↔ options.length ∈ [2, 4, 6] := by
    rw [Bool.not_eq_true, Bool.not_eq_false', List.contains_iff_mem]
  simp only [Accepts, main_passwordAging, passwordAging, unsupported, ite_error_eq_ok_iff,
    bind_eq_ok_iff, username_eq_ok, hlen]
  constructor
  · rintro ⟨_, hmem, _, ⟨hname, -⟩, flags, hflags, -⟩
    exact ⟨hmem, hname, flags, hflags⟩
  · rintro ⟨hmem, hname, flags, hflags⟩
    exact ⟨_, hmem, name, ⟨hname, rfl⟩, flags, hflags, rfl⟩

theorem agingOptions_flag {seen rest : List String} {flag days : String} (hflag : flag ∈ agingFlags)
    (hseen : flag ∉ seen) (hdays : matchesAll daysPattern days = true) :
    (∃ flags, agingOptions seen (flag :: days :: rest) = .ok flags) ↔
      ∃ flags, agingOptions (flag :: seen) rest = .ok flags := by
  simp [agingOptions, hflag, hseen, hdays, bind_eq_ok_iff]

/-- The flags the daemon sends, each at most once and in this order. -/
theorem accepts_passwordAging {maxDays minDays warnDays : Option String}
    (hmax : ∀ n ∈ maxDays, matchesAll daysPattern n = true)
    (hmin : ∀ n ∈ minDays, matchesAll daysPattern n = true)
    (hwarn : ∀ n ∈ warnDays, matchesAll daysPattern n = true)
    (hsome : flagged "-M" maxDays ++ flagged "-m" minDays ++ flagged "-W" warnDays ≠ []) :
    Accepts ("password-aging" :: name ::
      (flagged "-M" maxDays ++ flagged "-m" minDays ++ flagged "-W" warnDays)) ↔
        usernameOk name = true := by
  have hflags : ∃ flags, agingOptions [] (flagged "-M" maxDays ++ flagged "-m" minDays ++
      flagged "-W" warnDays) = .ok flags := by
    have hnil : ∀ seen, ∃ flags, agingOptions seen [] = .ok flags := fun _ => ⟨[], rfl⟩
    have hflag : ∀ seen rest flag (days : Option String), flag ∈ agingFlags → flag ∉ seen →
        (∀ n ∈ days, matchesAll daysPattern n = true) →
          (∀ seen', seen' ⊆ flag :: seen → ∃ flags, agingOptions seen' rest = .ok flags) →
            ∃ flags, agingOptions seen (flagged flag days ++ rest) = .ok flags := by
      intro seen rest flag days hmem hseen hdays hrest
      cases days with
      | none => exact hrest seen (List.subset_cons_self flag seen)
      | some n =>
        exact (agingOptions_flag hmem hseen (hdays n rfl)).mpr (hrest _ (List.Subset.refl _))
    rw [List.append_assoc]
    refine hflag _ _ "-M" maxDays (by decide) (by decide) hmax fun seen hseen => ?_
    refine hflag _ _ "-m" minDays (by decide) ?_ hmin fun seen' hseen' => ?_
    · exact fun hmem => absurd (hseen hmem) (by decide)
    · have hmem : "-W" ∉ seen' := by
        intro hmem
        rcases List.mem_cons.mp (hseen' hmem) with h | h
        · exact absurd h (by decide)
        · exact absurd (hseen h) (by decide)
      have hlast := hflag seen' [] "-W" warnDays (by decide) hmem hwarn fun seen _ => hnil seen
      rwa [List.append_nil] at hlast
  have hlen : (flagged "-M" maxDays ++ flagged "-m" minDays ++ flagged "-W" warnDays).length ∈
      [2, 4, 6] := by
    rcases maxDays with _ | m <;> rcases minDays with _ | n <;> rcases warnDays with _ | w <;>
      simp [flagged] at hsome ⊢
  rw [accepts_aging]
  exact ⟨fun h => h.2.1, fun h => ⟨hlen, h, hflags⟩⟩

/-- The verbs that take no package. -/
theorem accepts_aptBare : Accepts ["apt", verb] ↔ verb ∈ aptBare.map Prod.fst := by
  simp only [accepts_apt, aptArgv]
  cases h : aptBare.lookup verb with
  | none =>
    have hnot : verb ∉ aptBare.map Prod.fst := by
      intro hmem
      rw [List.lookup_eq_none_iff] at h
      obtain ⟨e, he, rfl⟩ := List.mem_map.mp hmem
      exact absurd (h e he) (by simp)
    simp [hnot]
  | some args =>
    have hmem : verb ∈ aptBare.map Prod.fst := by
      obtain ⟨l₁, l₂, hl, -⟩ := List.lookup_eq_some_iff.mp h
      rw [hl]
      simp
    simp [hmem]

theorem accepts_aptPackage {package : String} :
    Accepts ["apt", verb, package] ↔ verb ∈ aptWithPackage ∧
      (installPackageOk package && (verb == "install" || !endsWith "+" package)) = true := by
  simp only [accepts_apt, aptArgv]
  by_cases hverb : verb ∈ aptWithPackage
  · by_cases hmark : verb ∈ ["hold", "unhold"] <;>
      simp [hverb, hmark, bind_eq_ok_iff, aptPackage_eq_ok]
  · simp [hverb]

/-- The operands of `kargs`: pairs of a verb and an argument that may be added or removed. -/
def KargPairs : List String → Prop
  | [] => True
  | [_] => False
  | op :: token :: rest =>
    (op = "append" ∧ safeKernelArgOk token = true ∨
      op = "delete" ∧ safeKernelArgRemovalOk token = true) ∧ KargPairs rest

theorem kargOption_ok {op token : String} :
    (∃ option, kargOption op token = .ok option) ↔
      op = "append" ∧ safeKernelArgOk token = true ∨
        op = "delete" ∧ safeKernelArgRemovalOk token = true := by
  have hmap : ∀ {x : Except String String} {f : String → String},
      (∃ option, x.map f = .ok option) ↔ ∃ t, x = .ok t := by
    intro x f
    cases x <;> simp [Except.map]
  unfold kargOption
  by_cases happend : op = "append"
  · subst happend
    simp [hmap, kargAppend_eq_ok]
  · by_cases hdelete : op = "delete"
    · subst hdelete
      simp [hmap, kargDelete_eq_ok]
    · simp [happend, hdelete]

/-- The loop over the operands succeeds on pairs that may be added or removed. -/
theorem kargOptions_ok (operands : List String) :
    (operands.length % 2 = 0 ∧ ∃ options, kargOptions operands = .ok options) ↔
      KargPairs operands := by
  induction operands using kargOptions.induct with
  | case1 op token rest ih =>
    rw [KargPairs, ← ih, ← kargOption_ok]
    have hlen : (op :: token :: rest).length % 2 = rest.length % 2 := by
      simp only [List.length_cons]
      omega
    rw [hlen]
    simp only [kargOptions, bind_eq_ok_iff, Except.ok.injEq]
    constructor
    · rintro ⟨heven, _, option, hoption, options, hoptions, -⟩
      exact ⟨⟨option, hoption⟩, heven, options, hoptions⟩
    · rintro ⟨⟨option, hoption⟩, heven, options, hoptions⟩
      exact ⟨heven, _, option, hoption, options, hoptions, rfl⟩
  | case2 operands hshort =>
    rcases operands with _ | ⟨op, _ | ⟨token, rest⟩⟩
    · simp [kargOptions, KargPairs]
    · simp [KargPairs]
    · exact absurd rfl (hshort op token rest)

theorem rpmOstreeArgv_packages {packages : List String} (hverb : verb ∈ ["install", "uninstall"]) :
    (∃ argv, rpmOstreeArgv (verb :: packages) = .ok argv) ↔
      packages ≠ [] ∧ ∀ p ∈ packages, installPackageOk p = true := by
  have hmap : ∀ l', packages.mapM rpmPackage = .ok l' ↔
      (∀ p ∈ packages, installPackageOk p = true) ∧ l' = packages := fun l' =>
    mapM_eq_ok_iff fun s t => rpmPackage_eq_ok
  simp only [List.mem_cons, List.not_mem_nil, or_false] at hverb
  by_cases hnil : packages = []
  · subst hnil
    rcases hverb with rfl | rfl <;> simp [rpmOstreeArgv, rpmOstreeVerbs]
  · rcases hverb with rfl | rfl <;>
      simp [rpmOstreeArgv, rpmOstreeVerbs, hnil, bind_eq_ok_iff, hmap]

theorem rpmOstreeArgv_replace {old new : String} :
    (∃ argv, rpmOstreeArgv ["replace", old, new] = .ok argv) ↔
      installPackageOk old = true ∧ installPackageOk new = true := by
  simp [rpmOstreeArgv, rpmOstreeVerbs, bind_eq_ok_iff, rpmPackage_eq_ok]

theorem rpmOstreeArgv_overrideRemove {package : String} :
    (∃ argv, rpmOstreeArgv ["override-remove", package] = .ok argv) ↔
      installPackageOk package = true := by
  simp [rpmOstreeArgv, rpmOstreeVerbs, bind_eq_ok_iff, rpmPackage_eq_ok]

theorem rpmOstreeArgv_rebase {target : String} :
    (∃ argv, rpmOstreeArgv ["rebase", target] = .ok argv) ↔ rebaseRefOk target = true := by
  simp [rpmOstreeArgv, rpmOstreeVerbs, bind_eq_ok_iff, rebaseRef_eq_ok]

theorem rpmOstreeArgv_kargs {operands : List String} :
    (∃ argv, rpmOstreeArgv ("kargs" :: operands) = .ok argv) ↔ KargPairs operands := by
  rw [← kargOptions_ok]
  by_cases heven : operands.length % 2 = 0
  · simp [rpmOstreeArgv, rpmOstreeVerbs, heven, bind_eq_ok_iff]
  · simp [rpmOstreeArgv, rpmOstreeVerbs, heven]

end ActionSteps

end Sysknife
