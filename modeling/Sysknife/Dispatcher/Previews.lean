import Sysknife.Actions.Catalogue

/-!
# Credentials in previews

Two actions take a credential: `ProAttach` its token and `ConfigureWifi` its password. A preview
shows the parameters and the command line of an action, with the credential replaced by
`<REDACTED>`. In the parameters it is found by its name, in the command line by its position,
which for `ConfigureWifi` is the one behind the word `password`; a network and a password may be
spelled like that word.

`preview_eq` is the property over two runs: what is shown does not depend on the credential.
-/

namespace Sysknife

/-! ### The two actions -/

def configureWifi (ssid : String) (password : Option String) : ActionSpec where
  actionName := "ConfigureWifi"
  mechanism := .command "sudo" (["nmcli", "device", "wifi", "connect", ssid] ++
    flagged "password" password)
  riskLevel := .high
  rebootRequired := false
  rollbackAvailable := false

def proAttach (token : String) : ActionSpec where
  actionName := "ProAttach"
  mechanism := .command "sudo" ["pro", "attach", token]
  riskLevel := .high
  rebootRequired := false
  rollbackAvailable := false

/-- The actions that take a credential. -/
inductive CredentialAction
  | proAttach
  | configureWifi
  deriving DecidableEq, Repr

namespace CredentialAction

def name : CredentialAction → String
  | .proAttach => "ProAttach"
  | .configureWifi => "ConfigureWifi"

/-- `allowed_action_params` -/
def allowedParams : CredentialAction → List String
  | .proAttach => ["token"]
  | .configureWifi => ["password", "ssid"]

/-- The arm of `build_action_spec` for the action. -/
def arm (params : Value) : CredentialAction → Except ExecutorError ActionSpec
  | .proAttach => do
    let token ← requireStr params "token"
    let token ← validatedSafeArg token "token"
    .ok (Sysknife.proAttach token)
  | .configureWifi => do
    let ssid ← validatedSafeArg (← requireStr params "ssid") "ssid"
    let password ← optionalValidated params "password" validatedSafeArg
    .ok (Sysknife.configureWifi ssid password)

def buildActionSpec (a : CredentialAction) (params : Value) : Except ExecutorError ActionSpec := do
  validateKnownParams a.allowedParams params
  a.arm params

end CredentialAction

/-! ### Redaction -/

/-- The parameters of an action that hold a credential. -/
def credentialKeysFor (actionName : String) : List String :=
  match actionName with
  | "ProAttach" => ["token"]
  | "ConfigureWifi" => ["password"]
  | _ => []

def redacted : String := "<REDACTED>"

/-- The parameters with every credential replaced. -/
def redactParams (actionName : String) (params : Value) : Value :=
  let keys := credentialKeysFor actionName
  match params with
  | .obj members =>
    .obj (members.map fun m => if keys.contains m.1 then (m.1, .str redacted) else m)
  | params => params

/-- Where the credential of an action stands in its command line. -/
inductive CredentialArgvSpec
  | last
  | afterKeyword (keyword : String)
  deriving DecidableEq, Repr

def credentialArgvSpec (actionName : String) : Option CredentialArgvSpec :=
  match actionName with
  | "ProAttach" => some .last
  | "ConfigureWifi" => some (.afterKeyword "password")
  | _ => none

/-- The position of the credential; after a keyword, it is the last one that has a successor. -/
def CredentialArgvSpec.index (args : List String) : CredentialArgvSpec → Option ℕ
  | .last => some (args.length - 1)
  | .afterKeyword keyword =>
    (args.zipIdx.reverse.find? fun a => a.1 == keyword && decide (a.2 + 1 < args.length)).map
      fun a => a.2 + 1

/-- The command line with the credential replaced: by position where the action has one, else
wherever a credential's text stands. -/
def redactArgv (actionName : String) (params : Value) (args : List String) : List String :=
  let keys := credentialKeysFor actionName
  let secrets := keys.filterMap fun k => (params.get k).bind Value.asStr
  if secrets.isEmpty then args
  else
    match credentialArgvSpec actionName with
    | some spec =>
      match (spec.index args).filter fun i => decide (i < args.length) with
      | some i => args.set i redacted
      | none => args
    | none => args.map fun a => if secrets.contains a then redacted else a

/-- The command line a description shows. -/
def describedCommand (actionName : String) (params : Value) (mechanism : ActionMechanism) :
    String :=
  match mechanism with
  | .command program args => String.intercalate " " (program :: redactArgv actionName params args)
  | .fileScan path => "read " ++ path
  | .fileWrite path _ => "write " ++ path
  | .filePatch path _ _ => "patch " ++ path
  | .fileDelete path => "rm " ++ path

/-! ### What the two actions build -/

theorem requireStr_eq_ok {params : Value} {key s : String} :
    requireStr params key = .ok s ↔ params.get key = some (.str s) := by
  unfold requireStr requireWith
  cases hget : params.get key with
  | none => simp
  | some v => cases v <;> simp [Value.asStr, orInvalid]

/-- An optional text is the member under its name, and null is as good as none. -/
theorem optionalStr_eq_ok {params : Value} {key : String} {value : Option String}
    (h : optionalStr params key = .ok value) : value = (params.get key).bind Value.asStr := by
  unfold optionalStr optionalWith at h
  split at h
  · next hget => rw [hget, Option.bind_none, Except.ok.inj h]
  · next hget => rw [hget, Option.bind_some, ← Except.ok.inj h]; rfl
  · next v _ hget =>
    rw [hget, Option.bind_some]
    cases hv : v.asStr with
    | none => simp [hv, orInvalid, Except.map] at h
    | some s => simpa [hv, orInvalid, Except.map, eq_comm] using h

/-- An optional argument is the text under its name, unless that is empty. -/
theorem optionalValidated_safeArg {params : Value} {key : String} {value : Option String}
    (h : optionalValidated params key validatedSafeArg = .ok value) :
    value = ((params.get key).bind Value.asStr).filter fun s => !s.isEmpty := by
  obtain ⟨read, hread, hvalue⟩ := bind_eq_ok_iff.mp h
  rw [← optionalStr_eq_ok hread]
  split at hvalue
  · next hnone => rw [hnone, Except.ok.inj hvalue]
  · next s hsome =>
    rw [hsome]
    cases hsafe : validatedSafeArg s key with
    | error e => simp [hsafe, Except.map] at hvalue
    | ok t => simpa [hsafe, Except.map, (checked_eq_ok.mp hsafe).2, eq_comm] using hvalue

namespace CredentialAction

theorem proAttach_built {params : Value} {spec : ActionSpec}
    (h : proAttach.buildActionSpec params = .ok spec) :
    ∃ token, params.get "token" = some (.str token) ∧ spec = Sysknife.proAttach token := by
  obtain ⟨-, -, harm⟩ := bind_eq_ok_iff.mp h
  obtain ⟨read, hread, hrest⟩ := bind_eq_ok_iff.mp harm
  obtain ⟨token, htoken, hspec⟩ := bind_eq_ok_iff.mp hrest
  obtain ⟨-, rfl⟩ := checked_eq_ok.mp htoken
  exact ⟨token, requireStr_eq_ok.mp hread, (Except.ok.inj hspec).symm⟩

theorem configureWifi_built {params : Value} {spec : ActionSpec}
    (h : configureWifi.buildActionSpec params = .ok spec) :
    ∃ ssid, params.get "ssid" = some (.str ssid) ∧ spec = Sysknife.configureWifi ssid
      (((params.get "password").bind Value.asStr).filter fun s => !s.isEmpty) := by
  obtain ⟨-, -, harm⟩ := bind_eq_ok_iff.mp h
  obtain ⟨read, hread, hrest⟩ := bind_eq_ok_iff.mp harm
  obtain ⟨ssid, hssid, hrest⟩ := bind_eq_ok_iff.mp hrest
  obtain ⟨password, hpassword, hspec⟩ := bind_eq_ok_iff.mp hrest
  obtain ⟨-, rfl⟩ := checked_eq_ok.mp hssid
  refine ⟨ssid, requireStr_eq_ok.mp hread, ?_⟩
  rw [← optionalValidated_safeArg hpassword, Except.ok.inj hspec]

end CredentialAction

/-! ### What a preview shows -/

/-- The command line of a specification, without its program. -/
def ActionSpec.argv (spec : ActionSpec) : List String :=
  match spec.mechanism with
  | .command _ args => args
  | _ => []

section Shown

variable {params : Value}

theorem redactArgv_proAttach {token : String} (h : params.get "token" = some (.str token)) :
    redactArgv "ProAttach" params (proAttach token).argv = ["pro", "attach", redacted] := by
  simp [redactArgv, credentialKeysFor, credentialArgvSpec, h, Value.asStr, ActionSpec.argv,
    proAttach, CredentialArgvSpec.index, Option.filter_some]

/-- The word `password` with a successor that comes last is the fifth, whatever the network and
the password are called. -/
theorem redactArgv_configureWifi {ssid password : String}
    (h : params.get "password" = some (.str password)) :
    redactArgv "ConfigureWifi" params (configureWifi ssid (some password)).argv =
      ["nmcli", "device", "wifi", "connect", ssid, "password", redacted] := by
  simp [redactArgv, credentialKeysFor, credentialArgvSpec, h, Value.asStr, ActionSpec.argv,
    configureWifi, flagged, CredentialArgvSpec.index, Option.filter_some]

end Shown

/-! ### Two runs -/

/-- The members are the same, or both hold a credential that is not empty. -/
def SameMember (keys : List String) (x y : String × Value) : Prop :=
  x.1 = y.1 ∧ (x.2 = y.2 ∨
    x.1 ∈ keys ∧ ∃ s t, s ≠ "" ∧ t ≠ "" ∧ x.2 = .str s ∧ y.2 = .str t)

/-- Objects that differ only in credentials that are not empty. -/
def SameButCredentials (keys : List String) (p q : Value) : Prop :=
  ∃ m n, p = .obj m ∧ q = .obj n ∧ List.Forall₂ (SameMember keys) m n

section TwoRuns

variable {keys : List String} {p q : Value}

/-- What a name stands for in one of them and in the other. -/
theorem SameButCredentials.get (h : SameButCredentials keys p q) (key : String) :
    p.get key = q.get key ∨ key ∈ keys ∧ ∃ s t, s ≠ "" ∧ t ≠ "" ∧
      p.get key = some (.str s) ∧ q.get key = some (.str t) := by
  obtain ⟨m, n, rfl, rfl, hmembers⟩ := h
  simp only [Value.get]
  induction hmembers with
  | nil => exact .inl rfl
  | @cons x y m n hxy _ ih =>
    obtain ⟨xk, xv⟩ := x
    obtain ⟨yk, yv⟩ := y
    obtain ⟨rfl, hvalue⟩ := hxy
    by_cases hkey : key = xk
    · subst hkey
      obtain rfl | ⟨hmem, s, t, hs, ht, rfl, rfl⟩ := hvalue
      · simp
      · exact .inr ⟨hmem, s, t, hs, ht, by simp, by simp⟩
    · have hne : (key == xk) = false := beq_false_of_ne hkey
      simpa [List.lookup_cons, hne] using ih

theorem SameButCredentials.get_eq (h : SameButCredentials keys p q) {key : String}
    (hkey : key ∉ keys) : p.get key = q.get key :=
  (h.get key).resolve_right fun hcredential => hkey hcredential.1

theorem redactParams_eq {actionName : String}
    (h : SameButCredentials (credentialKeysFor actionName) p q) :
    redactParams actionName p = redactParams actionName q := by
  obtain ⟨m, n, rfl, rfl, hmembers⟩ := h
  simp only [redactParams, Value.obj.injEq]
  induction hmembers with
  | nil => rfl
  | @cons x y m n hxy _ ih =>
    obtain ⟨xk, xv⟩ := x
    obtain ⟨yk, yv⟩ := y
    obtain ⟨rfl, hvalue⟩ := hxy
    rw [List.map_cons, List.map_cons, ih]
    obtain rfl | ⟨hmem, -⟩ := hvalue
    · rfl
    · simp [hmem]

namespace CredentialAction

/-- The command line that is shown is the same for both. -/
theorem redactArgv_eq {a : CredentialAction} {s t : ActionSpec}
    (h : SameButCredentials (credentialKeysFor a.name) p q) (hp : a.buildActionSpec p = .ok s)
    (hq : a.buildActionSpec q = .ok t) :
    redactArgv a.name p s.argv = redactArgv a.name q t.argv := by
  cases a with
  | proAttach =>
    obtain ⟨_, hget, rfl⟩ := proAttach_built hp
    obtain ⟨_, hget', rfl⟩ := proAttach_built hq
    rw [show proAttach.name = "ProAttach" from rfl, redactArgv_proAttach hget,
      redactArgv_proAttach hget']
  | configureWifi =>
    obtain ⟨ssid, hssid, rfl⟩ := configureWifi_built hp
    obtain ⟨ssid', hssid', rfl⟩ := configureWifi_built hq
    have hnetwork : ssid = ssid' := by
      rw [h.get_eq (by decide), hssid'] at hssid
      simpa using hssid.symm
    subst hnetwork
    obtain hsame | ⟨-, s, t, hs, ht, hget, hget'⟩ := h.get "password"
    · simp [redactArgv, credentialKeysFor, name, hsame]
    · have hread : ∀ {r : String}, r ≠ "" →
          ((some (Value.str r)).bind Value.asStr).filter (fun s => !s.isEmpty) = some r := by
        intro r hr
        simp [Value.asStr, Option.filter_some, hr]
      rw [show configureWifi.name = "ConfigureWifi" from rfl, hget, hget', hread hs, hread ht,
        redactArgv_configureWifi hget, redactArgv_configureWifi hget']

/-- **What a preview shows does not depend on the credential.** Accepted parameters that differ
only in it, and not in whether there is one, look the same in a preview, and so does the command
line built from them. -/
theorem preview_eq {a : CredentialAction} {s t : ActionSpec}
    (h : SameButCredentials (credentialKeysFor a.name) p q) (hp : a.buildActionSpec p = .ok s)
    (hq : a.buildActionSpec q = .ok t) :
    redactParams a.name p = redactParams a.name q ∧
      redactArgv a.name p s.argv = redactArgv a.name q t.argv :=
  ⟨redactParams_eq h, redactArgv_eq h hp hq⟩

theorem preview_eq_wifi :
    let p := Value.obj [("password", .str "password"), ("ssid", .str "password")]
    let q := Value.obj [("password", .str "attach"), ("ssid", .str "password")]
    redactParams "ConfigureWifi" p = redactParams "ConfigureWifi" q ∧
      redactArgv "ConfigureWifi" p (Sysknife.configureWifi "password" (some "password")).argv =
        redactArgv "ConfigureWifi" q (Sysknife.configureWifi "password" (some "attach")).argv :=
  preview_eq (a := configureWifi)
    ⟨_, _, rfl, rfl, .cons ⟨rfl, .inr ⟨by decide, _, _, by decide, by decide, rfl, rfl⟩⟩
      (.cons ⟨rfl, .inl rfl⟩ .nil)⟩ (by rfl) (by rfl)

end CredentialAction

end TwoRuns

/-- So does a description, where nothing but the command line is shown. -/
theorem CredentialAction.describedCommand_eq {a : CredentialAction} {p q : Value}
    {s t : ActionSpec} (h : SameButCredentials (credentialKeysFor a.name) p q)
    (hp : a.buildActionSpec p = .ok s) (hq : a.buildActionSpec q = .ok t) :
    describedCommand a.name p s.mechanism = describedCommand a.name q t.mechanism := by
  have hargv := redactArgv_eq h hp hq
  cases a with
  | proAttach =>
    obtain ⟨_, -, rfl⟩ := proAttach_built hp
    obtain ⟨_, -, rfl⟩ := proAttach_built hq
    exact congrArg (fun args => String.intercalate " " ("sudo" :: args)) hargv
  | configureWifi =>
    obtain ⟨_, -, rfl⟩ := configureWifi_built hp
    obtain ⟨_, -, rfl⟩ := configureWifi_built hq
    exact congrArg (fun args => String.intercalate " " ("sudo" :: args)) hargv

end Sysknife
