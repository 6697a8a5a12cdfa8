import Sysknife.Dispatcher.Calls

/-!
# What an approval is bound to

The request hash ties an execution to the parameters that were previewed. Three actions resolve
their effect only when they run, so a preview also captures that effect, and it is compared with
the live one before executing: the packages of `AptAutoremove`, and the deployment at the index of
`PinDeployment` and `UnpinDeployment`.
-/

namespace Sysknife.Dispatcher

/-- The bytes a request hash is computed over. -/
def requestHashMessage (actionName : String) (params : Value) : Bytes :=
  utf8 actionName ++ 0 :: utf8 params.canonicalJson

/-- Keyed hash of an action with its parameters. -/
def computeRequestHash (d : Daemon) (actionName : String) (params : Value) : String :=
  Hex.encode (d.hmac (requestHashMessage actionName params))

/-- Member of `proposed_change` for the packages an autoremove would delete. -/
def autoremoveRemovalsKey : String := "autoremove_removals"

/-- Member of `proposed_change` for the deployment an index stood for. -/
def deploymentIdentityKey : String := "deployment_identity"

/-- The checksum of the deployment at an index of `rpm-ostree status --json`. -/
def parseDeploymentIdentity (d : Daemon) (statusJson : String) (index : ℕ) : Except String String :=
  match d.parseJson statusJson with
  | .error e => .error ("rpm-ostree status --json did not parse: " ++ e)
  | .ok doc =>
    match (doc.get "deployments").bind Value.asArray with
    | none => .error "rpm-ostree status --json has no deployments array"
    | some deployments =>
      match deployments[index]? with
      | none =>
        .error ("there is no deployment at index " ++ toString index ++ "; rpm-ostree lists " ++
          toString deployments.length)
      | some entry =>
        match ((entry.get "checksum").bind Value.asStr).filter (· ≠ "") with
        | none => .error ("the deployment at index " ++ toString index ++ " carries no checksum")
        | some checksum => .ok checksum

/-- The identity read from the command's answer. -/
def deploymentIdentity (d : Daemon) (index : ℕ) : Except String String → Except String String
  | .ok out => parseDeploymentIdentity d out index
  | .error e => .error ("rpm-ostree status --json failed: " ++ e)

/-- Read the live identity of the deployment at an index. -/
def resolveDeploymentIdentity (d : Daemon) (index : ℕ) : Handler (Except String String) := do
  let out ← call (.runCommand "rpm-ostree" ["status", "--json"])
  return deploymentIdentity d index out

/-- Is the deployment now at the index the one that was approved? -/
def verifyDeploymentBinding (approvedProposedChange : Value) (liveIdentity : String) :
    Except String Unit :=
  match (approvedProposedChange.get deploymentIdentityKey).bind Value.asStr with
  | none =>
    .error ("the approved preview did not capture which deployment sat at that index;" ++
      "              preview again")
  | some captured =>
    if captured = liveIdentity then .ok ()
    else
      .error ("the deployment at that index changed since you approved it (approved " ++ captured ++
        ",          now " ++ liveIdentity ++ "); preview again")

/-- The removals read from the command's answer. -/
def autoremoveSet : Except String String → Except String (List String)
  | .ok out => .ok (parseAutoremoveRemovals out)
  | .error e => .error ("apt-get -s autoremove failed: " ++ e)

/-- Simulate an autoremove. -/
def simulateAutoremoveSet : Handler (Except String (List String)) := do
  let out ← call (.runCommand "apt-get" ["-s", "autoremove"])
  return autoremoveSet out

/-- Warn about kernel, driver and bootloader packages in an autoremove set. -/
def autoremoveKernelWarning (set : List String) : Option String :=
  let flagged := set.filter fun n =>
    let base := (n.toList.splitOnP (· == ':')).headD []
    "linux-image".toList.isPrefixOf base || "linux-modules".toList.isPrefixOf base ||
      "linux-headers".toList.isPrefixOf base || "grub".toList.isPrefixOf base ||
      base.tails.any ("nvidia".toList.isPrefixOf ·) || "-dkms".toList.isSuffixOf base
  if flagged.isEmpty then none
  else
    some ("autoremove would delete kernel/driver/bootloader packages: " ++
      String.intercalate ", " flagged ++ ". Review carefully.")

/-- Is the live autoremove set the one that was approved? -/
def verifyAutoremoveBinding (approvedProposedChange : Value) (live : List String) :
    Except String Unit :=
  match approvedProposedChange.get autoremoveRemovalsKey with
  | none =>
    .error "the approved preview did not capture the autoremove deletion set; preview again"
  | some captured =>
    match captured.asStrings.map sortedSet with
    | none => .error "the approved preview's autoremove set is malformed; preview again"
    | some approved =>
      if approved = live then .ok ()
      else
        let added := live.filter (· ∉ approved)
        let removed := approved.filter (· ∉ live)
        .error ("the set of packages autoremove would delete changed since you approved it " ++
          "(now also removes: [" ++ String.intercalate ", " added ++ "]; no longer removes: [" ++
          String.intercalate ", " removed ++ "]); preview again")

end Sysknife.Dispatcher
