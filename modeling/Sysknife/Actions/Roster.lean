import Sysknife.Policy

/-!
# The catalogue of actions

What the daemon knows of each action from its name alone: risk tier, whether it asks for a reboot,
and whether it can be rolled back. The groups and their order are those of `catalogue()`.
-/

namespace Sysknife

/-- An action of low risk. -/
def low (actionName : String) : String × SpecMeta := (actionName, ⟨.low, false, false⟩)

def medium (actionName : String) : String × SpecMeta := (actionName, ⟨.medium, false, false⟩)

def high (actionName : String) : String × SpecMeta := (actionName, ⟨.high, false, false⟩)

/-- A high-risk action that asks for a reboot. -/
def reboots (actionName : String) (rollback : Bool) : String × SpecMeta :=
  (actionName, ⟨.high, true, rollback⟩)

/-- Deployment (atomic host) -/
def deploymentSpecs : List (String × SpecMeta) :=
  [low "GetSystemState", low "CollectDiagnostics", low "GetDeploymentHistory",
    low "ListDeployments", reboots "UpdateSystem" true, high "PinDeployment",
    high "UnpinDeployment", reboots "RebaseSystem" true, high "CleanupDeployments",
    reboots "RebootSystem" false, reboots "RollbackDeployment" false, low "GetKernelArguments",
    reboots "SetKernelArguments" true]

/-- Package layering (rpm-ostree) -/
def layeringSpecs : List (String × SpecMeta) :=
  [reboots "InstallPackages" true, reboots "RemovePackages" true, low "GetLayeredPackages",
    reboots "AddLayeredPackage" true, reboots "RemoveLayeredPackage" true,
    reboots "ReplaceLayeredPackage" true, reboots "ResetLayeredPackageOverride" true,
    reboots "RemoveBasePackage" true, low "GetPendingUpdates"]

/-- Filesystem -/
def filesystemSpecs : List (String × SpecMeta) :=
  [low "GetDiskUsage"]

/-- Flatpak -/
def flatpakSpecs : List (String × SpecMeta) :=
  [medium "InstallFlatpak", medium "RemoveFlatpak", low "SearchFlatpakApps",
    low "ListFlatpakRemotes", low "ListInstalledFlatpaks", medium "AddFlatpakRemote",
    medium "RemoveFlatpakRemote", low "GetFlatpakAppInfo", medium "UpdateFlatpak",
    medium "UbuntuInstallFlatpak", medium "UbuntuRemoveFlatpak", medium "UbuntuUpdateFlatpak",
    low "UbuntuListFlatpaks"]

/-- Toolbox -/
def toolboxSpecs : List (String × SpecMeta) :=
  [low "ListToolboxes", medium "CreateToolbox", medium "RemoveToolbox"]

/-- Services -/
def servicesSpecs : List (String × SpecMeta) :=
  [low "ListServices", medium "StartService", medium "StopService", medium "RestartService",
    medium "SetServiceEnabled", high "MaskService", medium "UnmaskService", low "GetServiceLogs",
    low "GetServiceStatus", medium "ReloadService", low "ListTimers", medium "ReloadDaemon",
    high "CreateScheduledJob", low "GetServiceResourceLimits", medium "SetServiceResourceLimits"]

/-- Processes -/
def processesSpecs : List (String × SpecMeta) :=
  [low "ListProcesses", high "SignalProcess"]

/-- Journald -/
def journaldSpecs : List (String × SpecMeta) :=
  [low "GetJournalLog", high "VacuumJournal"]

/-- Storage — LVM -/
def lvmSpecs : List (String × SpecMeta) :=
  [low "GetLvmReport", high "ExtendLogicalVolume", medium "CreateLogicalVolume",
    medium "CreateLvSnapshot"]

/-- Kernel parameters — sysctl -/
def sysctlSpecs : List (String × SpecMeta) :=
  [low "GetSysctl", high "SetSysctl"]

/-- Mounts & swap -/
def mountsSpecs : List (String × SpecMeta) :=
  [low "GetMounts", high "AddMount", high "RemoveMount", high "AddSwap", high "RemoveSwap"]

/-- Log management -/
def loggingSpecs : List (String × SpecMeta) :=
  [low "GetLogrotateStatus", medium "ConfigureLogRotation", medium "RemoveLogRotation",
    high "ConfigureRemoteSyslog", high "RemoveRemoteSyslog"]

/-- PAM password policy -/
def pamSpecs : List (String × SpecMeta) :=
  [low "GetPasswordAging", high "SetPasswordAging", high "SetPasswordPolicy",
    high "SetAccountLockout"]

/-- auditd -/
def auditdSpecs : List (String × SpecMeta) :=
  [low "GetAuditRules", medium "AddAuditRule", high "RemoveAuditRule"]

/-- certbot / ACME -/
def certbotSpecs : List (String × SpecMeta) :=
  [low "GetCertificates", high "ObtainCertificate", medium "RenewCertificates"]

/-- Scoped sudoers.d -/
def sudoersSpecs : List (String × SpecMeta) :=
  [low "GetSudoGrants", high "GrantSudoAccess", high "RevokeSudoAccess"]

/-- Network -/
def networkSpecs : List (String × SpecMeta) :=
  [high "ConfigureWifi", high "SetDnsServers", high "ConfigureFirewall", low "GetFirewallState",
    low "GetNetworkStatus", low "GetListeningPorts", low "GetNftablesRuleset",
    low "GetFirewallBackendState"]

/-- resolvectl -/
def resolvectlSpecs : List (String × SpecMeta) :=
  [low "ResolvectlStatus", high "ResolvectlSetDns"]

/-- Identity / time / locale -/
def identitySpecs : List (String × SpecMeta) :=
  [low "GetDateTime", medium "SetHostname", medium "SetTimezone", medium "SetLocale",
    medium "SetNtp"]

/-- Users & groups -/
def usersSpecs : List (String × SpecMeta) :=
  [low "ListUsers", low "ListGroups", high "CreateUser", high "DeleteUser", high "AddUserToGroup",
    high "RemoveUserFromGroup", medium "CreateGroup", high "DeleteGroup", high "LockUserAccount",
    high "UnlockUserAccount"]

/-- SSH keys -/
def sshSpecs : List (String × SpecMeta) :=
  [low "GetAuthorizedKeys", high "AddAuthorizedKey", high "RemoveAuthorizedKey",
    high "SetSshdOption"]

/-- Package repositories -/
def packageReposSpecs : List (String × SpecMeta) :=
  [low "ListPackageRepositories", high "AddPackageRepository", medium "RemovePackageRepository",
    medium "EnablePackageRepository", medium "DisablePackageRepository"]

/-- System info -/
def systemInfoSpecs : List (String × SpecMeta) :=
  [low "GetMemoryInfo", low "GetHostState"]

/-- Containers -/
def containersSpecs : List (String × SpecMeta) :=
  [low "ListContainers", medium "CreateContainer", medium "StartContainer", medium "StopContainer",
    medium "RemoveContainer", low "GetContainerInfo"]

/-- Reboot -/
def rebootSpecs : List (String × SpecMeta) :=
  [low "CheckPendingReboot"]

/-- AppArmor -/
def apparmorSpecs : List (String × SpecMeta) :=
  [low "AppArmorStatus", high "AppArmorEnforce", high "AppArmorComplain"]

/-- cloud-init -/
def cloudinitSpecs : List (String × SpecMeta) :=
  [low "CloudInitStatus"]

/-- fail2ban -/
def fail2banSpecs : List (String × SpecMeta) :=
  [low "Fail2banStatus", high "Fail2banBanIp", medium "Fail2banUnbanIp",
    high "ConfigureFail2banJail"]

/-- apt -/
def aptSpecs : List (String × SpecMeta) :=
  [low "AptUpdate", high "AptUpgrade", medium "AptInstall", medium "AptRemove", medium "AptPurge",
    medium "AptAutoremove", medium "AptHold", medium "AptUnhold", low "AptSearch",
    low "AptListInstalled", low "AptShow", low "AptListUpgradable", low "AptHistoryList",
    high "ConfigureUnattendedUpgrades"]

/-- apt preferences / pinning -/
def aptPreferencesSpecs : List (String × SpecMeta) :=
  [low "GetAptPins", medium "SetAptPin", medium "RemoveAptPin"]

/-- PPA -/
def ppaSpecs : List (String × SpecMeta) :=
  [high "AddPpa", medium "RemovePpa"]

/-- snap -/
def snapSpecs : List (String × SpecMeta) :=
  [medium "SnapInstall", medium "SnapRemove", medium "SnapRefresh", medium "SnapHold",
    medium "SnapUnhold", low "SnapList", low "SnapInfo", medium "SnapRevert",
    medium "SnapClassicInstall"]

/-- ufw -/
def ufwSpecs : List (String × SpecMeta) :=
  [high "UfwEnable", high "UfwDisable", high "UfwAllow", high "UfwDeny", high "UfwReset",
    low "UfwStatus", high "UfwDeleteRule", high "UfwLimit"]

/-- netplan -/
def netplanSpecs : List (String × SpecMeta) :=
  [low "NetplanGetConfig", high "NetplanApply", high "NetplanSet", medium "NetplanGenerate"]

/-- distrobox -/
def distroboxSpecs : List (String × SpecMeta) :=
  [low "DistroboxList", medium "DistroboxCreate", medium "DistroboxRemove"]

/-- GRUB -/
def grubSpecs : List (String × SpecMeta) :=
  [low "GrubGetKargs", reboots "GrubSetKargs" false]

/-- Ubuntu release upgrade -/
def releaseUpgradeSpecs : List (String × SpecMeta) :=
  [reboots "UbuntuReleaseUpgrade" false]

/-- Ubuntu Pro -/
def ubuntuProSpecs : List (String × SpecMeta) :=
  [low "ProStatus", high "ProAttach", high "ProDetach", high "EnableProService",
    high "DisableProService"]

/-- Livepatch -/
def livepatchSpecs : List (String × SpecMeta) :=
  [low "LivepatchStatus"]

/-- Multipass -/
def multipassSpecs : List (String × SpecMeta) :=
  [low "MultipassList"]

/-- Every action the daemon recognises. -/
def catalogue : List (String × SpecMeta) :=
  deploymentSpecs ++ layeringSpecs ++ filesystemSpecs ++ flatpakSpecs ++ toolboxSpecs ++
    servicesSpecs ++ processesSpecs ++ journaldSpecs ++ lvmSpecs ++ sysctlSpecs ++ mountsSpecs ++
    loggingSpecs ++ pamSpecs ++ auditdSpecs ++ certbotSpecs ++ sudoersSpecs ++ networkSpecs ++
    resolvectlSpecs ++ identitySpecs ++ usersSpecs ++ sshSpecs ++ packageReposSpecs ++
    systemInfoSpecs ++ containersSpecs ++ rebootSpecs ++ apparmorSpecs ++ cloudinitSpecs ++
    fail2banSpecs ++ aptSpecs ++ aptPreferencesSpecs ++ ppaSpecs ++ snapSpecs ++ ufwSpecs ++
    netplanSpecs ++ distroboxSpecs ++ grubSpecs ++ releaseUpgradeSpecs ++ ubuntuProSpecs ++
    livepatchSpecs ++ multipassSpecs

/-- `spec_meta` -/
def specMeta (actionName : String) : Option SpecMeta := catalogue.lookup actionName

end Sysknife
