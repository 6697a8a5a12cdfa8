import Sysknife.Actions.Roster
import Sysknife.Lib.Pattern

/-!
# Which actions a host may run

The daemon fences actions by the host's distribution before it runs them, and the client asks a
routing guard before a plan reaches the operator. Both use the lists of `action_family.rs`; the
daemon also looks at the baseline role, the client at the lists of preferences.

* `checkActionDistro_eq_ok`, `validateActionPlatform_eq_ok`: what each of the two accepts.
* `fence_accepts_routed_iff`: **of the actions the client routes, the daemon accepts those the
  policy lists name, those any observer may run, and all of them on a supported host.**
-/

namespace Sysknife

open Text

/-! ### Distributions -/

/-- Broad distribution family. -/
inductive DistroFamily
  | fedora
  | debian
  | other
  deriving DecidableEq, Repr

/-- Distribution identity, read from `/etc/os-release`. -/
inductive DistroId
  | fedora (version : ℕ)
  | fedoraSilverblue (version : ℕ)
  | ubuntu (major minor : ℕ)
  | ubuntuCore (major minor : ℕ)
  | debian (version : Option ℕ)
  | other (id : String) (versionId : Option String) (idLike : List String)
  deriving DecidableEq, Repr

namespace DistroId

/-- `{minor:02}` -/
def twoDigits (n : ℕ) : String := if n < 10 then "0" ++ toString n else toString n

/-- The `Display` text. -/
def display : DistroId → String
  | .fedora version => "Fedora " ++ toString version
  | .fedoraSilverblue version => "FedoraSilverblue " ++ toString version
  | .ubuntu major minor => "Ubuntu " ++ toString major ++ "." ++ twoDigits minor
  | .ubuntuCore major minor => "UbuntuCore " ++ toString major ++ "." ++ twoDigits minor
  | .debian (some version) => "Debian " ++ toString version
  | .debian none => "Debian (unknown version)"
  | .other id (some version) _ => id ++ " " ++ version
  | .other id none _ => id

def family : DistroId → DistroFamily
  | .fedora _ | .fedoraSilverblue _ => .fedora
  | .ubuntu _ _ | .ubuntuCore _ _ | .debian _ => .debian
  | .other id _ idLike =>
    if contains "fedora" id then .fedora
    else if idLike.any fun p => p == "debian" || p == "ubuntu" then .debian
    else if idLike.any fun p => p == "fedora" || p == "rhel" then .fedora
    else .other

/-- `matches!(distro, DistroId::Ubuntu { .. })` -/
def isUbuntu : DistroId → Bool
  | .ubuntu _ _ => true
  | _ => false

theorem family_of_isUbuntu {distro : DistroId} (h : distro.isUbuntu = true) :
    distro.family = .debian := by
  cases distro <;> first | rfl | cases h

def oldestEligibleFedoraAtomic : ℕ := 41

def oldestSupportedUbuntuMajor : ℕ := 20

def oldestSupportedDebian : ℕ := 12

/-- May the daemon act on this host at all? -/
def isSupported : DistroId → Bool
  | .fedora _ => false
  | .fedoraSilverblue version => oldestEligibleFedoraAtomic ≤ version
  | .ubuntu major _ => oldestSupportedUbuntuMajor ≤ major
  | .debian version => version.any fun v => oldestSupportedDebian ≤ v
  | .ubuntuCore _ _ => false
  | .other _ _ _ => false

end DistroId

/-! ### Families of actions -/

/-- Actions whose mechanism is rpm-ostree or dnf. -/
def fedoraOnlyActions : List String :=
  ["GetSystemState", "AddLayeredPackage", "RemoveLayeredPackage", "ReplaceLayeredPackage",
    "RemoveBasePackage", "ResetLayeredPackageOverride", "GetLayeredPackages",
    "GetDeploymentHistory", "ListDeployments", "CleanupDeployments", "RollbackDeployment",
    "PinDeployment", "UnpinDeployment", "RebaseSystem", "GetKernelArguments", "SetKernelArguments",
    "UpdateSystem", "InstallPackages", "RemovePackages", "GetPendingUpdates",
    "ListPackageRepositories", "AddPackageRepository", "RemovePackageRepository",
    "EnablePackageRepository", "DisablePackageRepository"]

/-- Runnable on the Debian family, but not offered there. -/
def nonCanonicalOnDebian : List String :=
  ["GetFirewallState", "ConfigureFirewall", "ListToolboxes", "CreateToolbox", "RemoveToolbox"]

/-- Actions whose mechanism is apt, dpkg or GRUB. -/
def debianOnlyActions : List String :=
  ["AptUpdate", "AptUpgrade", "AptInstall", "AptRemove", "AptPurge", "AptAutoremove", "AptHold",
    "AptUnhold", "AptSearch", "AptListInstalled", "AptShow", "AptListUpgradable", "AptHistoryList",
    "ConfigureUnattendedUpgrades", "GetAptPins", "SetAptPin", "RemoveAptPin", "GrubGetKargs",
    "GrubSetKargs"]

/-- Services and repositories of Ubuntu itself. -/
def ubuntuOnlyActions : List String :=
  ["AddPpa", "RemovePpa", "CheckPendingReboot", "UbuntuReleaseUpgrade", "ProStatus", "ProAttach",
    "ProDetach", "EnableProService", "DisableProService", "LivepatchStatus"]

/-- Installable on Debian, but not offered there. -/
def nonCanonicalOnDebianHost : List String :=
  ["SnapInstall", "SnapRemove", "SnapRefresh", "SnapHold", "SnapUnhold", "SnapList", "SnapInfo",
    "SnapRevert", "SnapClassicInstall", "NetplanGetConfig", "NetplanApply", "NetplanSet",
    "NetplanGenerate", "MultipassList"]

/-- Portable tools that are not offered on Fedora. -/
def nonCanonicalOnFedora : List String :=
  ["GetHostState", "SnapInstall", "SnapRemove", "SnapRefresh", "SnapHold", "SnapUnhold", "SnapList",
    "SnapInfo", "SnapRevert", "SnapClassicInstall", "UfwEnable", "UfwDisable", "UfwAllow",
    "UfwDeny", "UfwReset", "UfwStatus", "DistroboxList", "DistroboxCreate", "DistroboxRemove",
    "NetplanGetConfig", "NetplanApply", "NetplanSet", "NetplanGenerate", "AppArmorStatus",
    "AppArmorEnforce", "AppArmorComplain", "CloudInitStatus", "UbuntuInstallFlatpak",
    "UbuntuRemoveFlatpak", "UbuntuUpdateFlatpak", "UbuntuListFlatpaks", "Fail2banStatus",
    "Fail2banBanIp", "Fail2banUnbanIp", "ConfigureFail2banJail", "MultipassList", "UfwDeleteRule",
    "UfwLimit"]

/-- Does the action need a known distribution even for a read? -/
def actionRequiresDistro (action : String) : Bool :=
  [fedoraOnlyActions, debianOnlyActions, ubuntuOnlyActions].any fun list => list.contains action

/-- Do planning and routing ask for a supported host? -/
def actionRequiresSupportedHost (action : String) : Bool :=
  actionRequiresDistro action ||
    [nonCanonicalOnDebian, nonCanonicalOnDebianHost, nonCanonicalOnFedora].any fun list =>
      list.contains action

/-- Can the action's mechanism work on the distribution? -/
def actionMatchesDistro (action : String) (distro : DistroId) : Bool :=
  if ubuntuOnlyActions.contains action then distro.isUbuntu
  else if debianOnlyActions.contains action then distro.family == .debian
  else if fedoraOnlyActions.contains action then distro.family == .fedora
  else true

/-! ### The client's routing guard -/

def familyLabel : DistroFamily → String
  | .fedora => "Fedora family"
  | .debian => "Debian family"
  | .other => "unknown family"

/-- The client's guard, before a plan reaches the operator. -/
def checkActionDistro (actionName : String) (distro : Option DistroId) : Except String Unit :=
  match distro with
  | none => .ok ()
  | some distro =>
    if ubuntuOnlyActions.contains actionName && !actionMatchesDistro actionName distro then
      .error (actionName ++ " requires Ubuntu itself; current distro is " ++ distro.display)
    else if debianOnlyActions.contains actionName && distro.family != .debian then
      .error (actionName ++ " is only valid on Debian-family distros (apt/dpkg/GRUB); " ++
        "current distro is " ++ distro.display ++ " (" ++ familyLabel distro.family ++ ")")
    else if fedoraOnlyActions.contains actionName && distro.family != .fedora then
      .error (actionName ++ " is only valid on Fedora-family distros (rpm-ostree/dnf); " ++
        "current distro is " ++ distro.display ++ " (" ++ familyLabel distro.family ++ ")")
    else if actionRequiresSupportedHost actionName && !distro.isSupported then
      .error (actionName ++ " is disabled on unsupported distro " ++ distro.display ++
        "; see docs/distro-support.md")
    else .ok ()

/-! ### The daemon's fence -/

/-- Is the baseline role above an observer's? -/
def isMutating (actionName : String) : Bool :=
  (minRoleForAction specMeta actionName).any fun role => decide (.observer < role)

/-- The daemon's fence, on a host with the detected distribution. -/
def validateActionPlatform (hostDistro : Option DistroId) (actionName : String) :
    Except String Unit :=
  if !actionRequiresDistro actionName && !isMutating actionName then .ok ()
  else
    match hostDistro with
    | none =>
      .error ("cannot safely run " ++ actionName ++ ": host distribution could not be detected")
    | some distro =>
      if !distro.isSupported then
        .error ("cannot run " ++ actionName ++ " on unsupported host " ++ distro.display ++
          "; see docs/distro-support.md")
      else if !actionMatchesDistro actionName distro then
        .error ("action " ++ actionName ++ " is incompatible with supported host " ++
          distro.display)
      else .ok ()

/-! ### What the two accept -/

theorem actionRequiresSupportedHost_of_requiresDistro {action : String}
    (h : actionRequiresDistro action = true) : actionRequiresSupportedHost action = true := by
  rw [actionRequiresSupportedHost, h, Bool.true_or]

/-- An action of the Fedora family is in no other family. -/
theorem families_disjoint :
    ∀ a ∈ fedoraOnlyActions, a ∉ debianOnlyActions ∧ a ∉ ubuntuOnlyActions := by decide

/-- Ubuntu is of the Debian family, so its actions pass the checks of both. -/
theorem actionMatchesDistro_iff {action : String} {distro : DistroId} :
    actionMatchesDistro action distro = true ↔
      (action ∈ ubuntuOnlyActions → distro.isUbuntu = true) ∧
      (action ∈ debianOnlyActions → distro.family = .debian) ∧
      (action ∈ fedoraOnlyActions → distro.family = .fedora) := by
  rw [actionMatchesDistro]
  simp only [List.contains_iff_mem]
  by_cases hubuntu : action ∈ ubuntuOnlyActions
  · have hfedora : action ∉ fedoraOnlyActions := fun h => (families_disjoint action h).2 hubuntu
    rw [if_pos hubuntu]
    constructor
    · intro h
      exact ⟨fun _ => h, fun _ => DistroId.family_of_isUbuntu h, fun h => absurd h hfedora⟩
    · rintro ⟨h, -, -⟩
      exact h hubuntu
  · rw [if_neg hubuntu]
    by_cases hdebian : action ∈ debianOnlyActions
    · have hfedora : action ∉ fedoraOnlyActions := fun h => (families_disjoint action h).1 hdebian
      simp [hubuntu, hdebian, hfedora]
    · by_cases hfedora : action ∈ fedoraOnlyActions <;> simp [hubuntu, hdebian, hfedora]

/-- The client routes an action whose mechanism works on the distribution, and asks for a supported
host where the action is in one of the policy lists. -/
theorem checkActionDistro_eq_ok {actionName : String} {distro : DistroId} :
    checkActionDistro actionName (some distro) = .ok () ↔
      actionMatchesDistro actionName distro = true ∧
        (actionRequiresSupportedHost actionName = true → distro.isSupported = true) := by
  have hubuntu : (actionName ∈ ubuntuOnlyActions → actionMatchesDistro actionName distro = true) ↔
      (actionName ∈ ubuntuOnlyActions → distro.isUbuntu = true) := by
    refine forall_congr' fun h => ?_
    rw [actionMatchesDistro, if_pos (List.contains_iff_mem.mpr h)]
  rw [checkActionDistro]
  simp only [ite_error_eq_ok_iff, Bool.and_eq_true, List.contains_iff_mem, not_and, and_true,
    Bool.not_eq_true', bne_iff_ne, ne_eq, not_not, Bool.not_eq_false]
  rw [hubuntu, actionMatchesDistro_iff, and_assoc, and_assoc]

/-- The daemon exempts the portable actions any observer may run, and asks for a supported host
and a working mechanism otherwise. -/
theorem validateActionPlatform_eq_ok {actionName : String} {distro : DistroId} :
    validateActionPlatform (some distro) actionName = .ok () ↔
      (actionRequiresDistro actionName = false ∧ isMutating actionName = false) ∨
        (distro.isSupported = true ∧ actionMatchesDistro actionName distro = true) := by
  rw [validateActionPlatform]
  cases hdistro : actionRequiresDistro actionName <;> cases hmutating : isMutating actionName <;>
    simp [ite_error_eq_ok_iff]

/-- **Where the client's guard and the daemon's fence agree.** Of the actions the client routes, the
daemon accepts exactly those the policy lists name, those any observer may run, and all of them on
a supported host. -/
theorem fence_accepts_routed_iff {actionName : String} {distro : DistroId}
    (h : checkActionDistro actionName (some distro) = .ok ()) :
    validateActionPlatform (some distro) actionName = .ok () ↔
      actionRequiresSupportedHost actionName = true ∨ isMutating actionName = false ∨
        distro.isSupported = true := by
  obtain ⟨hmatches, hsupported⟩ := checkActionDistro_eq_ok.mp h
  rw [validateActionPlatform_eq_ok]
  constructor
  · rintro (⟨-, hread⟩ | ⟨hhost, -⟩)
    · exact Or.inr (Or.inl hread)
    · exact Or.inr (Or.inr hhost)
  · rintro (hpolicy | hread | hhost)
    · exact Or.inr ⟨hsupported hpolicy, hmatches⟩
    · cases hdistro : actionRequiresDistro actionName with
      | false => exact Or.inl ⟨rfl, hread⟩
      | true =>
        have hpolicy := actionRequiresSupportedHost_of_requiresDistro hdistro
        exact Or.inr ⟨hsupported hpolicy, hmatches⟩
    · exact Or.inr ⟨hhost, hmatches⟩

/-- A package is installed on a supported release of Ubuntu. -/
theorem fence_accepts_routed_aptInstall :
    validateActionPlatform (some (.ubuntu 24 4)) "AptInstall" = .ok () := by
  have hrouted : checkActionDistro "AptInstall" (some (.ubuntu 24 4)) = .ok () := by decide
  exact (fence_accepts_routed_iff hrouted).mpr (Or.inl (by decide))

/-- Installing a Flatpak is in no policy list: the client routes it on a host the daemon does not
act on. -/
theorem routed_flatpak_refused :
    specMeta "InstallFlatpak" = some ⟨.medium, false, false⟩ ∧
      checkActionDistro "InstallFlatpak" (some (.fedora 41)) = .ok () ∧
      validateActionPlatform (some (.fedora 41)) "InstallFlatpak" =
        .error ("cannot run InstallFlatpak on unsupported host Fedora 41; " ++
          "see docs/distro-support.md") := by
  decide

end Sysknife
