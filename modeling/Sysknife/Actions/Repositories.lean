import Sysknife.Actions.Catalogue

/-!
# Package repositories

The actions on the files under `/etc/yum.repos.d`, and how `execute_spec` writes, patches and
deletes a file. A repository is enabled and disabled by replacing the first occurrence of
`enabled=0` or `enabled=1` in its file, wherever that is.

* `toggles_restore_iff`: what was added is disabled and enabled again, with its address as it was,
  exactly when the address has neither of the two texts in it.
-/

namespace Sysknife

open Text

/-! ### Files -/

/-- The text files of the host; what is absent has none. -/
abbrev Files := String → Option String

/-- `content.replacen(search, replace, 1)` -/
def replaceFirst (search replace content : String) : String :=
  match splitOnce search content with
  | none => content
  | some (before, after) => before ++ replace ++ after

/-- What is read or removed is not there. -/
def notFound : ExecutorError := .io "No such file or directory (os error 2)"

/-- An action that did its work in silence. -/
def silent : ExecutionOutput := { stdout := "", stderr := "", exitCode := 0 }

/-- Carry an action out on the files; commands and scans are carried out by `others`. -/
def executeSpec (others : ActionMechanism → Files → ExecutionResult × Files) (files : Files) :
    ActionMechanism → ExecutionResult × Files
  | .fileWrite path content => (.ok silent, Function.update files path (some content))
  | .filePatch path search replace =>
    match files path with
    | none => (.error notFound, files)
    | some content =>
      let patched := replaceFirst search replace content
      -- A patch that changes nothing counts as one whose text was not found.
      if patched = content ∧ search ≠ "" then
        (.ok
          { stdout := ""
            stderr := "search string not found in file: " ++ path
            exitCode := 1 }, files)
      else (.ok silent, Function.update files path (some patched))
  | .fileDelete path =>
    match files path with
    | none => (.error notFound, files)
    | some _ => (.ok silent, Function.update files path none)
  | mechanism => others mechanism files

/-! ### The actions -/

def repositoryFile (repoId : String) : String := "/etc/yum.repos.d/" ++ repoId ++ ".repo"

def addPackageRepository (repoId repoUrl : String) : ActionSpec where
  actionName := "AddPackageRepository"
  mechanism := .fileWrite (repositoryFile repoId)
    ("[" ++ repoId ++ "]\nbaseurl=" ++ repoUrl ++ "\nenabled=1\n")
  riskLevel := .high
  rebootRequired := false
  rollbackAvailable := false

def removePackageRepository (repoId : String) : ActionSpec where
  actionName := "RemovePackageRepository"
  mechanism := .fileDelete (repositoryFile repoId)
  riskLevel := .medium
  rebootRequired := false
  rollbackAvailable := false

def enablePackageRepository (repoId : String) : ActionSpec where
  actionName := "EnablePackageRepository"
  mechanism := .filePatch (repositoryFile repoId) "enabled=0" "enabled=1"
  riskLevel := .medium
  rebootRequired := false
  rollbackAvailable := false

def disablePackageRepository (repoId : String) : ActionSpec where
  actionName := "DisablePackageRepository"
  mechanism := .filePatch (repositoryFile repoId) "enabled=1" "enabled=0"
  riskLevel := .medium
  rebootRequired := false
  rollbackAvailable := false

/-- Letters, digits, hyphens and underscores. -/
def repoIdOk (id : String) : Bool :=
  !id.isEmpty && id.toList.all fun c => c.isAlphanum || c == '-' || c == '_'

def validatedRepoId (params : Value) : Except ExecutorError String := do
  let id ← requireStr params "repo_id"
  checked (repoIdOk id) id "repo_id"

/-- A text on one line. -/
def noNewline (s : String) : Bool := !(s.toList.contains '\n' || s.toList.contains '\r')

def validatedNoNewline (params : Value) (key : String) : Except ExecutorError String := do
  let val ← requireStr params key
  checked (noNewline val) val key

/-- The actions on one repository. -/
inductive RepositoryAction
  | add | remove | enable | disable
  deriving DecidableEq, Repr

namespace RepositoryAction

def allowedParams : RepositoryAction → List String
  | .add => ["repo_id", "repo_url"]
  | .remove | .enable | .disable => ["repo_id"]

/-- The arm of `build_action_spec` for an action. -/
def arm (params : Value) : RepositoryAction → Except ExecutorError ActionSpec
  | .add => do
    let repoId ← validatedRepoId params
    let repoUrl ← validatedNoNewline params "repo_url"
    .ok (addPackageRepository repoId repoUrl)
  | .remove => (validatedRepoId params).map removePackageRepository
  | .enable => (validatedRepoId params).map enablePackageRepository
  | .disable => (validatedRepoId params).map disablePackageRepository

def buildActionSpec (a : RepositoryAction) (params : Value) : Except ExecutorError ActionSpec := do
  validateKnownParams a.allowedParams params
  a.arm params

end RepositoryAction

/-! ### Reading a repository file -/

/-- The value of a key in a section of an INI file. -/
def setting (heading key content : String) : Option String :=
  let body := (((split '\n' content).dropWhile (· != "[" ++ heading ++ "]")).drop 1).takeWhile
    fun line => !startsWith "[" line
  body.findSome? fun line =>
    (splitOnce "=" line).bind fun entry => if entry.1 = key then some entry.2 else none

/-- The file of a repository. -/
def repository (id url enabled : String) : String :=
  "[" ++ id ++ "]\nbaseurl=" ++ url ++ "\nenabled=" ++ enabled ++ "\n"

section Setting

variable {id url enabled : String}

theorem split_repository (hid : '\n' ∉ id.toList) (hurl : '\n' ∉ url.toList)
    (henabled : '\n' ∉ enabled.toList) :
    split '\n' (repository id url enabled) =
      ["[" ++ id ++ "]", "baseurl=" ++ url, "enabled=" ++ enabled, ""] := by
  have hjoined : repository id url enabled = String.intercalate "\n"
      ["[" ++ id ++ "]", "baseurl=" ++ url, "enabled=" ++ enabled, ""] := by
    rw [← String.toList_inj]
    simp [repository]
  rw [hjoined]
  refine split_intercalate rfl (List.cons_ne_nil _ _) ?_
  simp [hid, hurl, henabled]

theorem setting_repository (hid : '\n' ∉ id.toList) (hurl : '\n' ∉ url.toList)
    (henabled : '\n' ∉ enabled.toList) :
    setting id "baseurl" (repository id url enabled) = some url ∧
      setting id "enabled" (repository id url enabled) = some enabled := by
  have hcut : ∀ key value : String, '=' ∉ key.toList →
      splitOnce "=" (key ++ "=" ++ value) = some (key, value) := by
    intro key value hkey
    rw [splitOnce_of_notMem (c := '=') (l := []) (a := key.toList) (b := value.toList) rfl
      (by simp) hkey, String.ofList_toList, String.ofList_toList]
  have hurl' : splitOnce "=" ("baseurl=" ++ url) = some ("baseurl", url) :=
    hcut "baseurl" url (by decide)
  have henabled' : splitOnce "=" ("enabled=" ++ enabled) = some ("enabled", enabled) :=
    hcut "enabled" enabled (by decide)
  have hplain : ∀ rest : String, startsWith "[" ("baseurl=" ++ rest) = false ∧
      startsWith "[" ("enabled=" ++ rest) = false := by
    intro rest
    rw [startsWith, startsWith, String.toList_append, String.toList_append]
    exact ⟨rfl, rfl⟩
  have hbody : (((split '\n' (repository id url enabled)).dropWhile
      (· != "[" ++ id ++ "]")).drop 1).takeWhile (fun line => !startsWith "[" line) =
        ["baseurl=" ++ url, "enabled=" ++ enabled, ""] := by
    have hempty : startsWith "[" "" = false := by decide
    rw [split_repository hid hurl henabled, List.dropWhile_cons_of_neg (by simp), List.drop_one,
      List.tail_cons]
    refine List.takeWhile_eq_self_iff.mpr fun line hline => ?_
    simp only [List.mem_cons, List.not_mem_nil, or_false] at hline
    rcases hline with rfl | rfl | rfl
    · rw [(hplain url).1, Bool.not_false]
    · rw [(hplain enabled).2, Bool.not_false]
    · rw [hempty, Bool.not_false]
  have hkeys : "baseurl" ≠ "enabled" := by decide
  constructor
  · rw [setting, hbody, List.findSome?_cons, hurl', Option.bind_some, if_pos rfl]
  · rw [setting, hbody, List.findSome?_cons, hurl', Option.bind_some, if_neg hkeys]
    simp only [List.findSome?_cons, henabled', Option.bind_some, if_true]

end Setting

/-! ### Replacing the first occurrence -/

section Replacing

variable {needle replacement : String} {x y : List Char} {c : Char}

/-- What does not occur before a line stands first where that line begins with it. -/
theorem replaceFirst_after {before after content : String} (hneedle : '\n' ∉ needle.toList)
    (hbefore : ¬needle.toList <:+: before.toList)
    (hcontent : content = before ++ "\n" ++ needle ++ after) :
    replaceFirst needle replacement content = before ++ "\n" ++ replacement ++ after := by
  have hcut : splitOnce needle content = some (before ++ "\n", after) := by
    refine splitOnce_eq_some.mpr ⟨by simp [hcontent], fun k hk hpre => hbefore ?_⟩
    have hlist : content.toList = before.toList ++ ('\n' :: (needle.toList ++ after.toList)) := by
      simp [hcontent]
    have hle : k ≤ before.toList.length := by
      simp only [String.toList_append, List.length_append] at hk
      have hone : "\n".toList.length = 1 := rfl
      omega
    -- An earlier occurrence would have to end before the line break, and so stand in `before`.
    rw [hlist, List.drop_append_of_le_length hle] at hpre
    exact (isPrefix_of_notMem hneedle hpre).isInfix.trans (List.drop_suffix k _).isInfix
  rw [replaceFirst, hcut]

/-- What occurs in a part of a line, and not across its beginning, is replaced there. -/
theorem replaceFirst_within {before part after content : String} (hneedle : '\n' ∉ needle.toList)
    (hpart : needle.toList <:+: part.toList)
    (hbefore : ∀ k < before.toList.length, ∀ rest,
      ¬needle.toList <+: before.toList.drop k ++ rest)
    (hcontent : content = before ++ part ++ "\n" ++ after) :
    ∃ part', ('\n' ∉ replacement.toList → '\n' ∉ part.toList → '\n' ∉ part'.toList) ∧
      replaceFirst needle replacement content = before ++ part' ++ "\n" ++ after := by
  obtain ⟨⟨a, b⟩, hab⟩ : ∃ ab, splitOnce needle part = some ab := by
    rw [← Option.isSome_iff_exists, ← Option.ne_none_iff_isSome]
    exact fun hnone => splitOnce_eq_none.mp hnone hpart
  obtain ⟨hsplit, hfirst⟩ := splitOnce_eq_some.mp hab
  have hlist : content.toList = before.toList ++ (part.toList ++ '\n' :: after.toList) := by
    simp [hcontent]
  have hcut : splitOnce needle content = some (before ++ a, b ++ "\n" ++ after) := by
    refine splitOnce_eq_some.mpr ⟨by rw [hlist, hsplit]; simp, fun k hk hpre => ?_⟩
    rw [hlist, List.drop_append] at hpre
    -- An earlier occurrence begins before the part, or within it.
    rcases Nat.lt_or_ge k before.toList.length with hlt | hge
    · exact hbefore k hlt _ hpre
    · have hka : k - before.toList.length < a.toList.length := by
        rw [String.toList_append, List.length_append] at hk
        omega
      have hpl : a.toList.length ≤ part.toList.length := by
        rw [hsplit, List.length_append]
        omega
      rw [List.drop_of_length_le hge, List.nil_append,
        List.drop_append_of_le_length (by omega)] at hpre
      exact hfirst _ hka (isPrefix_of_notMem hneedle hpre)
  refine ⟨a ++ replacement ++ b, fun hreplacement hnl => ?_, ?_⟩
  · rw [hsplit] at hnl
    simp only [List.mem_append, not_or] at hnl
    simp [hnl.1, hnl.2.2, hreplacement]
  · rw [replaceFirst, hcut]
    simp [String.append_assoc]

end Replacing

/-! ### Disabling and enabling -/

section Toggling

variable {id url d e : String}

/-- The front of a repository file, up to its address. -/
def front (id : String) : String := "[" ++ id ++ "]\nbaseurl="

theorem repository_eq (id url enabled : String) :
    repository id url enabled = front id ++ url ++ "\n" ++ ("enabled=" ++ enabled ++ "\n") := by
  rw [← String.toList_inj]
  simp [repository, front]

/-- The setting does not begin before the address. -/
theorem enabled_not_in_front (hid : '=' ∉ id.toList) {k : ℕ} (hk : k < (front id).toList.length)
    (rest : List Char) : ¬("enabled=" ++ d).toList <+: (front id).toList.drop k ++ rest := by
  rintro ⟨tail, htail⟩
  obtain ⟨header, hheader⟩ : ∃ header, header = ("[" ++ id ++ "]\nbaseurl").toList := ⟨_, rfl⟩
  have hfront : (front id).toList = header ++ ['='] := by simp [front, hheader]
  have hneedle : ("enabled=" ++ d).toList = "enabled".toList ++ '=' :: d.toList := by simp
  have hnone : '=' ∉ header := by simp [hheader, hid]
  rw [hfront, List.length_append, List.length_singleton] at hk
  rw [hneedle, hfront, List.drop_append_of_le_length (by omega)] at htail
  simp only [List.append_assoc, List.cons_append, List.nil_append] at htail
  -- both sides are cut at their first equals sign
  have hleft : "enabled".toList <+: header.drop k :=
    isPrefix_of_notMem (by decide) ⟨_, htail⟩
  have hright : header.drop k <+: "enabled".toList :=
    isPrefix_of_notMem (fun hmem => hnone (List.mem_of_mem_drop hmem)) ⟨_, htail.symm⟩
  have hsame : header.drop k = "enabled".toList :=
    (hright.eq_of_length_le hleft.length_le)
  have hbaseurl : "baseurl".toList <:+ header := ⟨("[" ++ id ++ "]\n").toList, by simp [hheader]⟩
  have hdrop : header.drop k <:+ header := List.drop_suffix k header
  have hlength : "baseurl".toList.length = (header.drop k).length := by
    rw [hsame]
    rfl
  have heq := (List.suffix_of_suffix_length_le hbaseurl hdrop hlength.le).eq_of_length hlength
  rw [hsame] at heq
  exact absurd heq (by decide)

theorem replaceFirst_setting (hid : '=' ∉ id.toList) (hd : '\n' ∉ d.toList)
    (h : ¬("enabled=" ++ d).toList <:+: url.toList) :
    replaceFirst ("enabled=" ++ d) ("enabled=" ++ e) (repository id url d) =
      repository id url e := by
  have hbefore : ¬("enabled=" ++ d).toList <:+: (front id ++ url).toList := by
    rintro ⟨x, y, hxy⟩
    have hpre : ("enabled=" ++ d).toList <+: (front id ++ url).toList.drop x.length := by
      rw [← hxy, List.append_assoc, List.drop_left]
      exact List.prefix_append _ _
    have hlist : (front id ++ url).toList = (front id).toList ++ url.toList := String.toList_append
    rw [hlist, List.drop_append] at hpre
    rcases Nat.lt_or_ge x.length (front id).toList.length with hlt | hge
    · exact enabled_not_in_front hid hlt _ hpre
    · rw [List.drop_of_length_le hge, List.nil_append] at hpre
      exact h (hpre.isInfix.trans (List.drop_suffix _ _).isInfix)
  have hneedle : '\n' ∉ ("enabled=" ++ d).toList := by simp [hd]
  have hcontent : repository id url d =
      front id ++ url ++ "\n" ++ ("enabled=" ++ d) ++ "\n" := by
    rw [repository_eq]
    simp only [String.append_assoc]
  rw [replaceFirst_after hneedle hbefore hcontent, repository_eq]
  simp only [String.append_assoc]

theorem replaceFirst_address (enabled : String) (hid : '=' ∉ id.toList) (hd : '\n' ∉ d.toList)
    (he : '\n' ∉ e.toList) (hurl : '\n' ∉ url.toList)
    (h : ("enabled=" ++ d).toList <:+: url.toList) :
    ∃ url', '\n' ∉ url'.toList ∧
      replaceFirst ("enabled=" ++ d) ("enabled=" ++ e) (repository id url enabled) =
        repository id url' enabled := by
  have hneedle : '\n' ∉ ("enabled=" ++ d).toList := by simp [hd]
  have hreplacement : '\n' ∉ ("enabled=" ++ e).toList := by simp [he]
  obtain ⟨url', hline, hreplaced⟩ := replaceFirst_within hneedle h
    (fun k hk rest => enabled_not_in_front hid hk rest) (repository_eq id url enabled)
  exact ⟨url', hline hreplacement hurl, hreplaced.trans (repository_eq id url' enabled).symm⟩

end Toggling

section Run

variable (others : ActionMechanism → Files → ExecutionResult × Files)

/-- What is left of the files when an action is built and carried out. -/
def carryOut (a : RepositoryAction) (params : Value) (files : Files) : Files :=
  match a.buildActionSpec params with
  | .ok spec => (executeSpec others files spec.mechanism).2
  | .error _ => files

/-- What was added is disabled with its address, and enabled again as it was. -/
def TogglesRestore (files : Files) (params : Value) (id url : String) : Prop :=
  let added := carryOut others .add params files
  let disabled := carryOut others .disable (.obj [("repo_id", .str id)]) added
  let enabled := carryOut others .enable (.obj [("repo_id", .str id)]) disabled
  (∃ content, disabled (repositoryFile id) = some content ∧
      setting id "baseurl" content = some url ∧ setting id "enabled" content = some "0") ∧
    enabled (repositoryFile id) = added (repositoryFile id)

variable {others} {files : Files} {params : Value} {id url : String} {spec : ActionSpec}

/-- The parameters of an added repository are valid. -/
theorem add_eq_ok (h : RepositoryAction.add.buildActionSpec params = .ok spec)
    (hid : params.get "repo_id" = some (.str id)) (hurl : params.get "repo_url" = some (.str url)) :
    spec = addPackageRepository id url ∧ repoIdOk id = true ∧ noNewline url = true := by
  obtain ⟨u, -, harm⟩ := exists_of_bind_eq_ok h
  have hrequire : requireStr params "repo_id" = .ok id := by
    rw [requireStr, requireWith, hid]
    rfl
  have hrequire' : requireStr params "repo_url" = .ok url := by
    rw [requireStr, requireWith, hurl]
    rfl
  obtain ⟨i, hi, harm⟩ := exists_of_bind_eq_ok harm
  obtain ⟨v, hv, harm⟩ := exists_of_bind_eq_ok harm
  rw [validatedRepoId, hrequire, ok_bind] at hi
  rw [validatedNoNewline, hrequire', ok_bind] at hv
  obtain ⟨hidok, rfl⟩ := checked_eq_ok.mp hi
  obtain ⟨hurlok, rfl⟩ := checked_eq_ok.mp hv
  exact ⟨(Except.ok.inj harm).symm, hidok, hurlok⟩

/-- An identifier has nothing that a repository file is read by. -/
theorem plain_of_repoIdOk (h : repoIdOk id = true) : '=' ∉ id.toList ∧ '\n' ∉ id.toList := by
  simp only [repoIdOk, Bool.and_eq_true, List.all_eq_true] at h
  constructor
  · exact fun hmem => absurd (h.2 _ hmem) (by decide)
  · exact fun hmem => absurd (h.2 _ hmem) (by decide)

theorem validatedRepoId_obj (h : repoIdOk id = true) :
    validatedRepoId (.obj [("repo_id", .str id)]) = .ok id := by
  have hrequire : requireStr (.obj [("repo_id", .str id)]) "repo_id" = .ok id := rfl
  rw [validatedRepoId, hrequire, ok_bind, checked, if_pos h]

/-- A patch leaves the file with the first occurrence replaced, if there is one. -/
theorem executeSpec_filePatch {path search replace content : String}
    (h : files path = some content) :
    (executeSpec others files (.filePatch path search replace)).2 path =
      some (replaceFirst search replace content) := by
  simp only [executeSpec, h]
  split_ifs with hsame
  · rw [hsame.1]
    exact h
  · exact Function.update_self _ _ _

theorem carryOut_of_build {a : RepositoryAction} (h : a.buildActionSpec params = .ok spec) :
    carryOut others a params files = (executeSpec others files spec.mechanism).2 := by
  rw [carryOut, h]

/-- An action that patches the file of a repository. -/
theorem carryOut_patch {a : RepositoryAction} (build : String → ActionSpec)
    {search replace content : String}
    (hbuild : a.buildActionSpec (.obj [("repo_id", .str id)]) =
      (validatedRepoId (.obj [("repo_id", .str id)])).map build)
    (hpatch : (build id).mechanism = .filePatch (repositoryFile id) search replace)
    (hid : repoIdOk id = true) (h : files (repositoryFile id) = some content) :
    carryOut others a (.obj [("repo_id", .str id)]) files (repositoryFile id) =
      some (replaceFirst search replace content) := by
  have hspec : a.buildActionSpec (.obj [("repo_id", .str id)]) = .ok (build id) :=
    hbuild.trans (congrArg _ (validatedRepoId_obj hid))
  rw [carryOut_of_build hspec, hpatch]
  exact executeSpec_filePatch h

variable (others) in
theorem carryOut_enable (hid : repoIdOk id = true) {content : String}
    (h : files (repositoryFile id) = some content) :
    carryOut others .enable (.obj [("repo_id", .str id)]) files (repositoryFile id) =
      some (replaceFirst "enabled=0" "enabled=1" content) :=
  carryOut_patch enablePackageRepository rfl rfl hid h

variable (others) in
theorem carryOut_disable (hid : repoIdOk id = true) {content : String}
    (h : files (repositoryFile id) = some content) :
    carryOut others .disable (.obj [("repo_id", .str id)]) files (repositoryFile id) =
      some (replaceFirst "enabled=1" "enabled=0" content) :=
  carryOut_patch disablePackageRepository rfl rfl hid h

/-- **What was added is disabled and enabled again exactly when its address has neither setting in
it**, on any files. -/
theorem toggles_restore_iff (files : Files) (params : Value) (id url : String) (spec : ActionSpec)
    (hid : params.get "repo_id" = some (.str id)) (hurl : params.get "repo_url" = some (.str url))
    (h : RepositoryAction.add.buildActionSpec params = .ok spec) :
    TogglesRestore others files params id url ↔
      contains "enabled=1" url = false ∧ contains "enabled=0" url = false := by
  obtain ⟨rfl, hidok, hurlok⟩ := add_eq_ok h hid hurl
  obtain ⟨hequals, hnewline⟩ := plain_of_repoIdOk hidok
  have hline : '\n' ∉ url.toList := by
    simp only [noNewline, Bool.not_eq_true', Bool.or_eq_false_iff] at hurlok
    simpa using hurlok.1
  have hone : '\n' ∉ "1".toList := by decide
  have hzero : '\n' ∉ "0".toList := by decide
  have hadded : carryOut others .add params files (repositoryFile id) =
      some (repository id url "1") := by
    have hcontent : "[" ++ id ++ "]\nbaseurl=" ++ url ++ "\nenabled=1\n" =
        repository id url "1" := by
      rw [← String.toList_inj]
      simp [repository]
    have hwritten : (executeSpec others files (addPackageRepository id url).mechanism).2 =
        Function.update files (repositoryFile id) (some (repository id url "1")) := by
      rw [← hcontent]
      rfl
    rw [carryOut_of_build h, hwritten]
    exact Function.update_self (repositoryFile id) (some (repository id url "1")) files
  have hdisabled := carryOut_disable others hidok hadded
  have henabled := carryOut_enable others hidok hdisabled
  have hcontains : ∀ needle, contains needle url = false ↔ ¬needle.toList <:+: url.toList :=
    fun needle => decide_eq_false_iff_not
  rw [TogglesRestore, hcontains, hcontains]
  simp only [hadded, hdisabled, henabled, Option.some.injEq, exists_eq_left']
  constructor
  -- In an address with the text in it, the replacement is made there, and the setting stays.
  · rintro ⟨⟨-, hoff⟩, hrestored⟩
    have hfirst : ¬"enabled=1".toList <:+: url.toList := by
      intro hinfix
      obtain ⟨url', hurl', hreplaced⟩ := replaceFirst_address (d := "1") (e := "0") "1"
        hequals hone hzero hline hinfix
      have hreplaced' : replaceFirst "enabled=1" "enabled=0" (repository id url "1") =
        repository id url' "1" := hreplaced
      rw [hreplaced', (setting_repository hnewline hurl' hone).2] at hoff
      exact absurd hoff (by decide)
    refine ⟨hfirst, fun hinfix => ?_⟩
    have hsecond : replaceFirst "enabled=1" "enabled=0" (repository id url "1") =
      repository id url "0" := replaceFirst_setting (d := "1") (e := "0") hequals hone hfirst
    obtain ⟨url', hurl', hreplaced⟩ := replaceFirst_address (d := "0") (e := "1") "0"
      hequals hzero hone hline hinfix
    have hreplaced' : replaceFirst "enabled=0" "enabled=1" (repository id url "0") =
      repository id url' "0" := hreplaced
    rw [hsecond, hreplaced'] at hrestored
    have hsetting := (setting_repository hnewline hurl' hzero).2
    rw [hrestored, (setting_repository hnewline hline hone).2] at hsetting
    exact absurd hsetting (by decide)
  · rintro ⟨hfirst, hsecond⟩
    have hoff : replaceFirst "enabled=1" "enabled=0" (repository id url "1") =
      repository id url "0" := replaceFirst_setting (d := "1") (e := "0") hequals hone hfirst
    have hon : replaceFirst "enabled=0" "enabled=1" (repository id url "0") =
      repository id url "1" := replaceFirst_setting (d := "0") (e := "1") hequals hzero hsecond
    rw [hoff, hon]
    exact ⟨setting_repository hnewline hline hzero, rfl⟩

theorem toggles_restore_fedora :
    TogglesRestore (fun _ files => (.ok silent, files)) (fun _ => none)
        (.obj [("repo_id", .str "extra"), ("repo_url", .str "https://example.invalid/extra")])
        "extra" "https://example.invalid/extra" ↔
      contains "enabled=1" "https://example.invalid/extra" = false ∧
        contains "enabled=0" "https://example.invalid/extra" = false :=
  toggles_restore_iff (fun _ => none) _ _ _ _ rfl rfl rfl

/-- An address with the setting in it is rewritten in its place. -/
theorem address_rewritten :
    ¬∀ (others : ActionMechanism → Files → ExecutionResult × Files) (files : Files)
      (params : Value) (id url : String) (spec : ActionSpec),
      params.get "repo_id" = some (.str id) → params.get "repo_url" = some (.str url) →
      RepositoryAction.add.buildActionSpec params = .ok spec →
      TogglesRestore others files params id url := by
  intro h
  obtain ⟨⟨content, hcontent, -, hoff⟩, -⟩ := h (fun _ files => (.ok silent, files)) (fun _ => none)
    (.obj [("repo_id", .str "r"), ("repo_url", .str "u?enabled=1")]) "r" "u?enabled=1" _ rfl rfl rfl
  have hrewritten : some "[r]\nbaseurl=u?enabled=0\nenabled=1\n" = some content := hcontent
  rw [← Option.some.inj hrewritten] at hoff
  exact absurd hoff (by decide)

end Run

end Sysknife
