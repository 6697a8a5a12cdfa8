import Sysknife.Helpers.Parity

/-!
# The file-editing helpers accept what the daemon builds

The mounts, swap files, sudoers rules and log rules of `Parity`, where the helpers' validation is
the stricter one for a few kinds of parameters, and the theorem for all actions together.
-/

namespace Sysknife

open Text
open ActionSteps (orRaise matchesAll orRaise_eq_ok)

section EditParity

variable {paths : Paths} {params : Value} {spec : ActionSpec}

/-! ### Mounts and swap -/

theorem accepts_mountSpec {name : String} {argv : List String} :
    HelperAccepts paths (sudoSpec name .high (mountEdit :: argv)) ↔
      ∃ request, MountEdit.main paths argv = .ok request := by
  have h₁ : mountEdit ≠ actionSteps := by decide
  have h₂ : mountEdit ≠ sudoersEdit := by decide
  have h₃ : mountEdit ≠ logEdit := by decide
  simp [HelperAccepts, sudoSpec, helperTakes, h₁, h₂, h₃]

theorem isValue_of_slash {s : String} (h : startsWith "/" s = true) : IsValue s :=
  isValue_of_head ((startsWith_char rfl).mp h) (by decide)

theorem isValue_of_absolute {maxLen : ℕ} {s : String} (h : absolutePathOk maxLen s = true) :
    IsValue s := by
  simp only [absolutePathOk, Bool.and_eq_true] at h
  exact isValue_of_slash h.1.1.1

theorem isValue_of_device {d : String} (h : mountDeviceOk d = true) : IsValue d := by
  simp only [mountDeviceOk, Bool.and_eq_true, Bool.not_eq_true', Bool.or_eq_false_iff] at h
  exact ⟨h.1.1.2, h.1.1.1.1⟩

theorem isValue_of_fstype {f : String} (h : fstypeAllow.contains f = true) : IsValue f := by
  have hall : ∀ f ∈ fstypeAllow, startsWith "-" f = false ∧ f.isEmpty = false := by decide
  exact hall f (List.contains_iff_mem.mp h)

/-- A grammar of numbers matches no letter. -/
theorem negativeNumber_of_letter {text : List Char} {c : Char} (hc : c ∈ text)
    (halpha : c.isAlpha = true) : Parser.negativeNumber.fullmatch text = false := by
  have hdigits : ∀ {l : List Char}, (∀ x ∈ l, x.isDigit = true) → c ∉ l := fun hl hmem =>
    not_isAlpha_of_isDigit (hl c hmem) halpha
  rw [← Bool.not_eq_true, Parser.negativeNumber, Pattern.fullmatch_lit_seq]
  rintro ⟨cs, rfl, hcs⟩
  have hsign : c ∉ "-".toList := by
    intro hmem
    rw [List.mem_singleton.mp hmem] at halpha
    exact absurd halpha (by decide)
  have hmem : c ∈ cs := (List.mem_append.mp hc).resolve_left hsign
  rcases Pattern.fullmatch_alt.mp hcs with hcs | hcs
  · exact hdigits (Pattern.fullmatch_rep.mp hcs).1 hmem
  · obtain ⟨a, b, rfl, ha, hb⟩ := Pattern.fullmatch_seq.mp hcs
    obtain ⟨fraction, rfl, hfraction⟩ := Pattern.fullmatch_lit_seq.mp hb
    rcases List.mem_append.mp hmem with hmem | hmem
    · exact hdigits (Pattern.fullmatch_star.mp ha) hmem
    · rcases List.mem_append.mp hmem with hmem | hmem
      · rw [List.mem_singleton.mp hmem] at halpha
        exact absurd halpha (by decide)
      · exact hdigits (Pattern.fullmatch_rep.mp hfraction).1 hmem

/-- Options with a hyphen in front look like an option to `argparse`. -/
theorem isOption_hardened {requested : String} (hok : mountOptionsOk requested = true)
    (h : startsWith "-" (hardenedMountOptions requested) = true) :
    MountEdit.parser.isOption (hardenedMountOptions requested) = true := by
  obtain ⟨c, hc, halpha⟩ := MountEdit.letter_hardened hok
  have hmatch := MountEdit.matchesAll_hardened hok
  have hne : (hardenedMountOptions requested != "-") = true := by
    rw [bne_iff_ne]
    intro heq
    rw [heq] at hc
    rw [List.mem_singleton.mp hc] at halpha
    exact absurd halpha (by decide)
  have hnumber : matchesAll Parser.negativeNumber (hardenedMountOptions requested) = false :=
    negativeNumber_of_letter hc halpha
  have hspace : contains " " (hardenedMountOptions requested) = false := by
    rw [← Bool.not_eq_true, contains, decide_eq_true_eq]
    intro hinfix
    have hmem : ' ' ∈ (hardenedMountOptions requested).toList :=
      hinfix.subset (List.mem_singleton.mpr rfl)
    exact absurd (Pattern.fullmatch_star.mp hmatch ' ' hmem) (by decide)
  rw [Parser.isOption, h, hne, hnumber, hspace]
  simp

theorem mountOptions_eq {o : Option String}
    (h : optionalValidated params "options" validatedMountOptions = .ok o) :
    (o = none ∧ ∀ options, optionalStr params "options" = .ok (some options) → options = "") ∨
      ∃ options, optionalStr params "options" = .ok (some options) ∧
        mountOptionsOk options = true ∧ o = some (hardenedMountOptions options) := by
  rw [optionalValidated] at h
  obtain ⟨given, hgiven, h⟩ := exists_of_bind_eq_ok h
  rw [hgiven]
  cases given with
  | none =>
    refine .inl ⟨(Except.ok.inj h).symm, fun options heq => ?_⟩
    cases heq
  | some options =>
    by_cases hempty : options = ""
    · subst hempty
      refine .inl ⟨(Except.ok.inj h).symm, fun options heq => ?_⟩
      cases heq
      rfl
    · have hfilter : (some options).filter (fun s => !s.isEmpty) = some options := by
        simp [Option.filter_some, hempty]
      rw [hfilter] at h
      replace h : (validatedMountOptions options "options").map some = .ok o := h
      refine .inr ⟨options, rfl, ?_⟩
      cases hok : mountOptionsOk options with
      | false =>
        rw [validatedMountOptions, hok] at h
        cases h
      | true =>
        rw [validatedMountOptions, hok] at h
        exact ⟨rfl, (Except.ok.inj h).symm⟩

/-- A mount whose options are in order is accepted when its device and mountpoint are. -/
theorem opMount_accepts {d m f : String} {o : Option String} (hd : mountDeviceOk d = true)
    (hm : absolutePathOk maxFstabFieldLen m = true)
    (hcritical : criticalMountpoints.contains m = false) (hf : fstypeAllow.contains f = true)
    (hmatch : matchesAll MountEdit.optionsPattern (o.getD "defaults") = true)
    (hdeny : ((split ',' (o.getD "defaults")).any fun opt =>
      MountEdit.denyMountOptions.contains (lower opt)) = false) :
    (∃ request, MountEdit.opMount paths d m f o = .ok request) ↔
      DeviceNamed d ∧ paths.realpath m = normpath m ∧ paths.islink m = false ∧
        normpath m ∉ MountEdit.criticalMountpoints := by
  have hvalid : MountEdit.validMountpoint m = true := by
    have hlist : MountEdit.criticalMountpoints = criticalMountpoints := rfl
    rw [MountEdit.validMountpoint_of hm, hlist, hcritical]
    rfl
  have htypes : MountEdit.fstypeAllow = fstypeAllow := rfl
  simp only [MountEdit.opMount, ite_error_eq_ok_iff, bind_eq_ok_iff, hvalid, htypes, hf, hmatch,
    hdeny, MountEdit.mountpointSafe_eq_ok hm]
  constructor
  · rintro ⟨_, hdevice, -, -, -, -, _, hsafe, -⟩
    rw [Bool.not_eq_true, Bool.not_eq_false'] at hdevice
    exact ⟨MountEdit.deviceNamed_of_matches hdevice, hsafe⟩
  · rintro ⟨hnamed, hsafe⟩
    have hdevice := MountEdit.matches_of_deviceNamed hd hnamed
    exact ⟨_, by simp [hdevice], by simp, by simp, by simp, by simp, (), hsafe, rfl⟩

theorem matchesAll_defaults : matchesAll MountEdit.optionsPattern "defaults" = true := rfl

theorem denied_defaults : ((split ',' "defaults").any fun opt =>
    MountEdit.denyMountOptions.contains (lower opt)) = false := rfl

/-- A mount needs a named device, a mountpoint that the host resolves to itself, and options that
do not begin with a hyphen. -/
theorem addMount_accepts_iff (h : HelperAction.addMount.arm params = .ok spec) :
    HelperAccepts paths spec ↔ HelperAction.addMount.Agreed paths params := by
  simp only [HelperAction.arm, bind_eq_ok_iff, validatedMountDevice_eq_ok,
    validatedMountPoint_eq_ok,
    validatedFstype_eq_ok, Bool.and_eq_true, Bool.not_eq_true', Except.ok.injEq] at h
  obtain ⟨_, hd, d, ⟨hdok, rfl⟩, _, hm, m, ⟨⟨hmok, hcritical⟩, rfl⟩, _, -, f, ⟨hf, rfl⟩, o, ho,
    rfl⟩ := h
  have hagreed : HelperAction.addMount.Agreed paths params ↔
      (DeviceNamed d ∧ paths.realpath m = normpath m ∧ paths.islink m = false ∧
        normpath m ∉ MountEdit.criticalMountpoints) ∧
          ∀ options, optionalStr params "options" = .ok (some options) →
            ∀ p, (commaPieces options).head? = some p → startsWith "-" p = false := by
    simp only [HelperAction.Agreed, hd, hm, Except.ok.injEq, forall_eq', and_assoc]
  rw [hagreed]
  have hdv := isValue_of_device hdok
  have hmv := isValue_of_absolute hmok
  have hfv := isValue_of_fstype hf
  rcases mountOptions_eq ho with ⟨rfl, hempty⟩ | ⟨options, hoptions, hok, rfl⟩
  · simp only [flagged, List.append_nil]
    rw [accepts_mountSpec, MountEdit.main_mount hdv hmv hfv,
      opMount_accepts (o := none) hdok hmok hcritical hf matchesAll_defaults denied_defaults]
    refine (and_iff_left fun options hoptions p hp => ?_).symm
    rw [hempty options hoptions] at hp
    cases hp
  · have hagree : (∀ options', optionalStr params "options" = .ok (some options') →
        ∀ p, (commaPieces options').head? = some p → startsWith "-" p = false) ↔
          startsWith "-" (hardenedMountOptions options) = false := by
      simp only [hoptions, Except.ok.injEq, Option.some.injEq, forall_eq', ← Bool.not_eq_true,
        MountEdit.startsWith_hardened hok, not_exists, not_and]
    simp only [flagged, List.cons_append, List.nil_append]
    rw [hagree, accepts_mountSpec]
    cases hstart : startsWith "-" (hardenedMountOptions options) with
    | true =>
      rw [MountEdit.main_mount_refused hdv hmv hfv (isOption_hardened hok hstart)]
      simp
    | false =>
      have hov : IsValue (hardenedMountOptions options) := by
        refine ⟨hstart, ?_⟩
        obtain ⟨c, hc, -⟩ := MountEdit.letter_hardened hok
        rw [← Bool.not_eq_true, isEmpty_iff_toList]
        exact List.ne_nil_of_mem hc
      rw [MountEdit.main_mount_options hdv hmv hfv hov,
        opMount_accepts (o := some (hardenedMountOptions options)) hdok hmok hcritical hf
          (MountEdit.matchesAll_hardened hok) (MountEdit.denied_hardened hok), and_iff_left rfl]

theorem removeMount_accepts_iff (h : HelperAction.removeMount.arm params = .ok spec) :
    HelperAccepts paths spec ↔ HelperAction.removeMount.Agreed paths params := by
  simp only [HelperAction.arm, bind_eq_ok_iff, validatedMountPoint_eq_ok,
    Bool.and_eq_true, Bool.not_eq_true', Except.ok.injEq] at h
  obtain ⟨_, hm, m, ⟨⟨hmok, hcritical⟩, rfl⟩, rfl⟩ := h
  have hvalid : MountEdit.validMountpoint m = true := by
    have hlist : MountEdit.criticalMountpoints = criticalMountpoints := rfl
    rw [MountEdit.validMountpoint_of hmok, hlist, hcritical]
    rfl
  rw [accepts_mountSpec, MountEdit.main_unmount (isValue_of_absolute hmok)]
  simp [HelperAction.Agreed, hm, MountEdit.opUnmount, ite_error_eq_ok_iff, hvalid]

theorem swap_accepts_iff {a : HelperAction} (h : a.arm params = .ok spec)
    (ha : a ∈ [.addSwap, .removeSwap]) :
    HelperAccepts paths spec ↔ ∀ file, requireStr params "file" = .ok file →
      paths.realpath file = normpath file := by
  simp only [List.mem_cons, List.not_mem_nil, or_false] at ha
  rcases ha with rfl | rfl <;>
    simp only [HelperAction.arm, bind_eq_ok_iff, validatedSwapPath_eq_ok] at h
  · obtain ⟨_, hfile, file, ⟨hok, rfl⟩, size, -, h⟩ := h
    by_cases hsize : 1 ≤ size ∧ size ≤ maxSwapSizeMb
    · rw [if_pos hsize, Except.ok.injEq] at h
      rw [← h, accepts_mountSpec, MountEdit.main_addswap (isValue_of_absolute hok) (by omega)]
      have hrange : ¬((size : ℤ) < 1 ∨ 1048576 < (size : ℤ)) := by
        have hmax : maxSwapSizeMb = 1048576 := rfl
        omega
      rw [MountEdit.opAddswap, MountEdit.validSwapPath_of hok, if_neg (by decide), if_neg hrange]
      simp [bind_eq_ok_iff, hfile, MountEdit.swapPathSafe_eq_ok]
    · rw [if_neg hsize] at h
      cases h
  · obtain ⟨_, hfile, file, ⟨hok, rfl⟩, h⟩ := h
    obtain rfl := Except.ok.inj h
    rw [accepts_mountSpec, MountEdit.main_rmswap (isValue_of_absolute hok)]
    simp [MountEdit.opRmswap, bind_eq_ok_iff, hfile,
      MountEdit.validSwapPath_of hok, MountEdit.swapPathSafe_eq_ok]

/-! ### Sudoers rules -/

theorem accepts_sudoersSpec {name : String} {argv : List String} :
    HelperAccepts paths (sudoSpec name .high (sudoersEdit :: argv)) ↔
      ∃ request, SudoersEdit.main argv = .ok request := by
  have h₁ : sudoersEdit ≠ actionSteps := by decide
  have h₂ : sudoersEdit ≠ mountEdit := by decide
  have h₃ : sudoersEdit ≠ logEdit := by decide
  simp [HelperAccepts, sudoSpec, helperTakes, h₁, h₂, h₃]

theorem isValue_of_name {name : String} (h : sudoersNameOk name = true) : IsValue name := by
  simp only [sudoersNameOk, Bool.and_eq_true, Bool.not_eq_true'] at h
  obtain ⟨⟨⟨hne, -⟩, hfirst⟩, -⟩ := h
  refine ⟨?_, hne⟩
  rw [← Bool.not_eq_true, startsWith_char (c := '-') rfl]
  intro hhead
  rw [hhead] at hfirst
  exact absurd hfirst (by decide)

theorem isValue_of_username {u : String} (h : usernameOk u = true) : IsValue u := by
  simp only [usernameOk, Bool.and_eq_true, Bool.not_eq_true'] at h
  exact ⟨h.1.1.1.2, h.1.1.1.1.1⟩

theorem isValue_of_commands {commands : String} (h : sudoCommandsOk commands = true) :
    IsValue commands := by
  by_cases hall : commands = "ALL"
  · subst hall
    exact ⟨by decide, by decide⟩
  simp only [sudoCommandsOk, Bool.or_eq_true, beq_iff_eq, hall, false_or, Bool.and_eq_true,
    Bool.not_eq_true', List.all_eq_true] at h
  obtain ⟨⟨⟨hne, -⟩, hpieces⟩, -⟩ := h
  refine ⟨?_, hne⟩
  rw [← Bool.not_eq_true, startsWith_char (c := '-') rfl]
  intro hhyphen
  -- the first piece would begin with the hyphen
  obtain ⟨p, hp, hhead⟩ := exists_mem_split (x := ',') hhyphen (by decide)
  have hmem : p ∈ commaPieces commands := by
    refine List.mem_filter.mpr ⟨hp, ?_⟩
    rw [Bool.not_eq_true', ← Bool.not_eq_true, isEmpty_iff_toList]
    intro hnil
    rw [hnil] at hhead
    cases hhead
  have hroot := hpieces p hmem
  simp only [sudoCommandOk, Bool.and_eq_true] at hroot
  have hslash := (startsWith_char (c := '/') rfl).mp hroot.1.1.1
  rw [hhead] at hslash
  exact absurd hslash (by decide)

theorem runasOf_eq {runas : Option String} (h : runasOf params = .ok runas) :
    ∀ r ∈ runas, r = "ALL" ∨ usernameOk r = true := by
  rw [runasOf] at h
  obtain ⟨given, -, h⟩ := exists_of_bind_eq_ok h
  generalize given.filter (fun s => !s.isEmpty) = asked at h
  cases asked with
  | none =>
    obtain rfl := Except.ok.inj h
    exact fun r hr => by cases hr
  | some s =>
    intro r hr
    replace h : (if s = "ALL" then .ok (some s) else
        (validatedUsername s "runas").map some) = .ok runas := h
    by_cases hs : s = "ALL"
    · rw [if_pos hs, Except.ok.injEq] at h
      rw [← h, Option.mem_some_iff] at hr
      exact .inl (hr.symm.trans hs)
    · rw [if_neg hs, validatedUsername] at h
      cases hok : usernameOk s with
      | false =>
        rw [hok] at h
        cases h
      | true =>
        rw [hok] at h
        obtain rfl := Except.ok.inj h
        rw [Option.mem_some_iff] at hr
        exact .inr (hr ▸ hok)

/-- A user the helper takes for the left-hand side of a rule. -/
theorem grantUser_ok {u : String} (hok : usernameOk u = true) :
    (∃ t, SudoersEdit.validatedIdent u "user" = .ok t ∧ t ≠ "ALL") ↔ PlainAccount u := by
  by_cases hall : u = "ALL"
  · subst hall
    refine iff_of_false ?_ SudoersEdit.not_plainAccount_all
    rintro ⟨t, ht, hne⟩
    rw [SudoersEdit.validatedIdent, if_pos rfl, Except.ok.injEq] at ht
    exact hne ht.symm
  · simp only [SudoersEdit.validatedIdent_eq_ok hok hall]
    constructor
    · rintro ⟨t, ⟨hplain, -⟩, -⟩
      exact hplain
    · exact fun hplain => ⟨u, ⟨hplain, rfl⟩, hall⟩

theorem runas_ok {r : String} (hok : r = "ALL" ∨ usernameOk r = true) :
    (∃ t, SudoersEdit.validatedIdent r "runas" = .ok t) ↔ r = "ALL" ∨ PlainAccount r := by
  by_cases hall : r = "ALL"
  · subst hall
    exact iff_of_true ⟨"ALL", by rw [SudoersEdit.validatedIdent, if_pos rfl]⟩ (.inl rfl)
  · simp only [SudoersEdit.validatedIdent_eq_ok (hok.resolve_left hall) hall, hall, false_or,
      exists_and_left, exists_eq, and_true]

theorem buildRule_ok {commands : String} {nopasswd : Bool} (user runas : String)
    (hok : sudoCommandsOk commands = true)
    (hfree : ((commands == "ALL" || (shellEquivalentSudoCommand commands).isSome) && nopasswd) =
      false) :
    (∃ rule, SudoersEdit.buildRule user runas nopasswd commands = .ok rule) ↔
      "/" ∉ commaPieces commands := by
  by_cases hall : commands = "ALL"
  · subst hall
    have hnopasswd : nopasswd = false := by simpa using hfree
    have hpieces : commaPieces "ALL" = ["ALL"] := rfl
    refine iff_of_true ?_ (by rw [hpieces]; decide)
    simp [SudoersEdit.buildRule, ok_bind, hnopasswd]
  · rw [← SudoersEdit.commandEntries_ok hok hall]
    simp [SudoersEdit.buildRule, bind_eq_ok_iff, SudoersEdit.shellEquivalentCommand_eq, hfree, hall]

theorem plainAccount_root : PlainAccount "root" := by
  have hall : ∀ c ∈ "root".toList, (!c.isUpper && c != '.') = true :=
    List.all_eq_true.mp (by decide)
  refine ⟨fun c hc => by simpa using hall c hc, fun c hc => ?_⟩
  rw [← Option.mem_some.mp hc]
  rfl

theorem opGrant_ok {name user commands : String} {runas : Option String} {nopasswd : Bool}
    (hname : sudoersNameOk name = true) (huser : usernameOk user = true)
    (hcommands : sudoCommandsOk commands = true)
    (hfree : ((commands == "ALL" || (shellEquivalentSudoCommand commands).isSome) && nopasswd) =
      false) (hrunas : ∀ r ∈ runas, r = "ALL" ∨ usernameOk r = true) :
    (∃ request, SudoersEdit.opGrant name user commands runas nopasswd = .ok request) ↔
      PlainAccount user ∧ "/" ∉ commaPieces commands ∧
        ∀ r ∈ runas, r = "ALL" ∨ PlainAccount r := by
  have hroot : (∃ t, SudoersEdit.validatedIdent (runas.getD "root") "runas" = .ok t) ↔
      ∀ r ∈ runas, r = "ALL" ∨ PlainAccount r := by
    cases runas with
    | none =>
      refine iff_of_true ?_ (by simp)
      exact ⟨"root", (SudoersEdit.validatedIdent_eq_ok rfl (by decide)).mpr
        ⟨plainAccount_root, rfl⟩⟩
    | some r => simpa using runas_ok (hrunas r rfl)
  have hpattern : ¬(!matchesAll namePattern name) = true := by rw [namePattern_of hname]; decide
  rw [← grantUser_ok huser, ← hroot]
  simp only [SudoersEdit.opGrant, ite_error_eq_ok_iff, bind_eq_ok_iff, Except.ok.injEq]
  constructor
  · rintro ⟨_, -, u, hu, hall, r, hr, rule, hrule, -⟩
    exact ⟨⟨u, hu, hall⟩, (buildRule_ok u r hcommands hfree).mp ⟨rule, hrule⟩, r, hr⟩
  · rintro ⟨⟨u, hu, hall⟩, hslash, r, hr⟩
    obtain ⟨rule, hrule⟩ := (buildRule_ok u r hcommands hfree).mpr hslash
    exact ⟨_, hpattern, u, hu, hall, r, hr, rule, hrule, rfl⟩

/-- A grant needs plain accounts and commands with a name. -/
theorem grantSudoAccess_accepts_iff (h : HelperAction.grantSudoAccess.arm params = .ok spec) :
    HelperAccepts paths spec ↔ HelperAction.grantSudoAccess.Agreed paths params := by
  simp only [HelperAction.arm, bind_eq_ok_iff, validatedSudoersName_eq_ok, validatedUsername_eq_ok,
    validatedSudoCommands_eq_ok, ite_error_eq_ok_iff, Except.ok.injEq] at h
  obtain ⟨_, -, name, ⟨hname, rfl⟩, _, huser, user, ⟨huok, rfl⟩, _, hcommands, commands,
    ⟨hcok, rfl⟩, runas, hrunas, o, -, hfree, rfl⟩ := h
  rw [Bool.not_eq_true] at hfree
  have hrok := runasOf_eq hrunas
  have hrv : ∀ r ∈ runas, IsValue r := by
    intro r hr
    rcases hrok r hr with rfl | hok
    · exact ⟨by decide, by decide⟩
    · exact isValue_of_username hok
  have hagreed : HelperAction.grantSudoAccess.Agreed paths params ↔
      PlainAccount user ∧ "/" ∉ commaPieces commands ∧
        ∀ r ∈ runas, r = "ALL" ∨ PlainAccount r := by
    simp only [HelperAction.Agreed, huser, hcommands, hrunas, Except.ok.injEq, forall_eq',
      Option.mem_def]
  have hmain := SudoersEdit.main_grant (o.getD false) (isValue_of_name hname)
    (isValue_of_username huok) (isValue_of_commands hcok) hrv
  rw [hagreed, ← opGrant_ok hname huok hcok hfree hrok, ← hmain]
  exact accepts_sudoersSpec

theorem revokeSudoAccess_accepts (h : HelperAction.revokeSudoAccess.arm params = .ok spec) :
    HelperAccepts paths spec := by
  simp only [HelperAction.arm, bind_eq_ok_iff, validatedSudoersName_eq_ok,
    Except.ok.injEq] at h
  obtain ⟨_, -, name, ⟨hname, rfl⟩, rfl⟩ := h
  rw [accepts_sudoersSpec]
  refine ⟨.revoke name, ?_⟩
  rw [SudoersEdit.main_revoke (isValue_of_name hname), SudoersEdit.opRevoke, orRaise_eq_ok]
  exact ⟨namePattern_of hname, rfl⟩

theorem getSudoGrants_accepts (h : HelperAction.getSudoGrants.arm params = .ok spec) :
    HelperAccepts paths spec := by
  obtain rfl := Except.ok.inj h
  exact .inr (.inr (.inl ⟨rfl, .list, SudoersEdit.main_list⟩))

/-! ### Log rules -/

theorem accepts_logSpec {name : String} {risk : RiskLevel} {argv : List String} :
    HelperAccepts paths (sudoSpec name risk (logEdit :: argv)) ↔
      ∃ request, LogEdit.main argv = .ok request := by
  have h₁ : logEdit ≠ actionSteps := by decide
  have h₂ : logEdit ≠ mountEdit := by decide
  have h₃ : logEdit ≠ sudoersEdit := by decide
  simp [HelperAccepts, sudoSpec, helperTakes, h₁, h₂, h₃]

theorem opLogrotate_ok {name path frequency : String} {rotate : ℕ} {compress : Bool}
    (hname : sudoersNameOk name = true) (hpath : logPathOk path = true)
    (hfrequency : ["daily", "weekly", "monthly"].contains frequency = true)
    (hrotate : rotate ≤ 1000) (hsweeps : logGlobSweepsEvidence path = false)
    (hwild : (contains "*" path && rotate == 0) = false) :
    (∃ request, LogEdit.opLogrotate name path frequency rotate compress = .ok request) ↔
      NamesLog path := by
  have hfreq : LogEdit.freq.contains frequency = true := hfrequency
  have hrange : ¬((rotate : ℤ) < 0 ∨ 1000 < (rotate : ℤ)) := by omega
  have hkept : ¬(contains "*" path = true ∧ (rotate : ℤ) < 1) := by
    rintro ⟨hstar, hlt⟩
    have hzero : rotate = 0 := by omega
    rw [hstar, hzero] at hwild
    exact absurd hwild (by decide)
  rw [← LogEdit.validLogGlob_iff hpath]
  simp only [LogEdit.opLogrotate, ite_error_eq_ok_iff, namePattern_of hname, hfreq, hrange, hkept,
    LogEdit.sweepsLogEvidence_eq, hsweeps]
  simp

/-- A rotation needs a path that names something under the log root. -/
theorem configureLogRotation_accepts_iff
    (h : HelperAction.configureLogRotation.arm params = .ok spec) :
    HelperAccepts paths spec ↔ HelperAction.configureLogRotation.Agreed paths params := by
  simp only [HelperAction.arm, bind_eq_ok_iff, validatedSudoersName_eq_ok, validatedLogRotation,
    ite_error_eq_ok_iff, checked_eq_ok, Bool.not_eq_true', Except.ok.injEq] at h
  obtain ⟨_, -, name, ⟨hname, rfl⟩, _, -, frequency, ⟨hfrequency, rfl⟩, rotate, -, hrotate, _,
    hpath, path, ⟨_, ⟨hok, rfl⟩, _, ⟨hsweeps, rfl⟩, hwild, rfl⟩, o, -, rfl⟩ := h
  have hroot : startsWith "/" path = true := by
    simp only [logPathOk, Bool.and_eq_true] at hok
    obtain ⟨rest, hrest⟩ := startsWith_iff.mp hok.1.1.1
    exact startsWith_iff.mpr ⟨_, hrest⟩
  have hfv : IsValue frequency := by
    have hall : ∀ f ∈ ["daily", "weekly", "monthly"], startsWith "-" f = false ∧
        f.isEmpty = false := by decide
    exact hall frequency (List.contains_iff_mem.mp hfrequency)
  have hmain := LogEdit.main_logrotate rotate (o.getD false)
    (isValue_of_name hname) (isValue_of_slash hroot) hfv
  have hagreed : HelperAction.configureLogRotation.Agreed paths params ↔ NamesLog path := by
    simp only [HelperAction.Agreed, hpath, Except.ok.injEq, forall_eq']
  rw [hagreed, ← opLogrotate_ok hname hok hfrequency (Nat.not_lt.mp hrotate) hsweeps hwild, ← hmain]
  exact accepts_logSpec

theorem removeLogRotation_accepts (h : HelperAction.removeLogRotation.arm params = .ok spec) :
    HelperAccepts paths spec := by
  simp only [HelperAction.arm, bind_eq_ok_iff, validatedSudoersName_eq_ok,
    Except.ok.injEq] at h
  obtain ⟨_, -, name, ⟨hname, rfl⟩, rfl⟩ := h
  rw [accepts_logSpec]
  refine ⟨.rmLogrotate name, ?_⟩
  rw [LogEdit.main_rmLogrotate (isValue_of_name hname), LogEdit.opRmLogrotate, orRaise_eq_ok]
  exact ⟨namePattern_of hname, rfl⟩

theorem isValue_of_host {host : String} (h : syslogHostOk host = true) : IsValue host := by
  simp only [syslogHostOk, Bool.and_eq_true, Bool.not_eq_true'] at h
  exact ⟨h.1.2, h.1.1.1.1⟩

theorem configureRemoteSyslog_accepts
    (h : HelperAction.configureRemoteSyslog.arm params = .ok spec) : HelperAccepts paths spec := by
  simp only [HelperAction.arm, bind_eq_ok_iff, validatedSyslogHost_eq_ok] at h
  obtain ⟨_, -, host, ⟨hhost, rfl⟩, port, -, h⟩ := h
  by_cases hport : 1 ≤ port ∧ port ≤ maxPort
  · rw [if_pos hport] at h
    simp only [bind_eq_ok_iff, checked_eq_ok, Except.ok.injEq] at h
    obtain ⟨_, -, protocol, ⟨hprotocol, rfl⟩, rfl⟩ := h
    have hpv : IsValue protocol := by
      have hall : ∀ p ∈ ["tcp", "udp"], startsWith "-" p = false ∧ p.isEmpty = false := by decide
      exact hall protocol (List.contains_iff_mem.mp hprotocol)
    have hmax : maxPort = 65535 := rfl
    have hrange : ¬((port : ℤ) < 1 ∨ 65535 < (port : ℤ)) := by omega
    obtain ⟨hmatch, hdots⟩ := LogEdit.matchesAll_host hhost
    rw [accepts_logSpec]
    refine ⟨.rsyslogForward host port protocol, ?_⟩
    rw [LogEdit.main_rsyslogForward (isValue_of_host hhost) (by omega) hpv]
    simp only [LogEdit.opRsyslogForward, ite_error_eq_ok_iff, hmatch, hdots, hrange, hprotocol]
    simp
  · rw [if_neg hport] at h
    cases h

theorem removeRemoteSyslog_accepts (h : HelperAction.removeRemoteSyslog.arm params = .ok spec) :
    HelperAccepts paths spec := by
  obtain rfl := Except.ok.inj h
  rw [accepts_logSpec]
  exact ⟨.rmForward, LogEdit.main_rmForward⟩

/-! ### All actions -/

/-- For every action that runs a helper, and all parameters it is built from, the helper accepts
the command line if and only if the parameters are of a kind both validations agree on. -/
theorem helper_accepts_iff {a : HelperAction} (h : a.buildActionSpec params = .ok spec) :
    HelperAccepts paths spec ↔ a.Agreed paths params := by
  have harm := arm_of_build h
  cases a with
  | startService | stopService | restartService | setServiceEnabled | maskService | unmaskService
  | reloadService => exact iff_of_true (units_accept harm (by decide)) trivial
  | createUser => exact iff_of_true (createUser_accepts harm) trivial
  | deleteUser | lockUserAccount | unlockUserAccount =>
    exact iff_of_true (accounts_accept harm (by decide)) trivial
  | addUserToGroup | removeUserFromGroup =>
    exact iff_of_true (membership_accepts harm (by decide)) trivial
  | createGroup => exact iff_of_true (createGroup_accepts harm) trivial
  | deleteGroup => exact iff_of_true (deleteGroup_accepts harm) trivial
  | signalProcess => exact signal_accepts_iff harm
  | setPasswordAging => exact iff_of_true (passwordAging_accepts harm) trivial
  | extendLogicalVolume | createLogicalVolume | createLvSnapshot =>
    exact iff_of_true (volumes_accept harm (by decide)) trivial
  | aptUpdate | aptUpgrade | aptInstall | aptRemove | aptPurge | aptAutoremove | aptHold
  | aptUnhold => exact iff_of_true (apt_accepts harm (by decide)) trivial
  | installPackages | removePackages => exact packages_accept_iff harm (by decide)
  | addLayeredPackage | removeLayeredPackage | replaceLayeredPackage | removeBasePackage
  | rebaseSystem => exact iff_of_true (deployments_accept harm (by decide)) trivial
  | setKernelArguments => exact iff_of_true (kernelArguments_accept harm) trivial
  | addAuthorizedKey | removeAuthorizedKey =>
    exact iff_of_true (keys_accept harm (by decide)) trivial
  | addMount => exact addMount_accepts_iff harm
  | removeMount => exact removeMount_accepts_iff harm
  | addSwap | removeSwap => exact swap_accepts_iff harm (by decide)
  | getSudoGrants => exact iff_of_true (getSudoGrants_accepts harm) trivial
  | grantSudoAccess => exact grantSudoAccess_accepts_iff harm
  | revokeSudoAccess => exact iff_of_true (revokeSudoAccess_accepts harm) trivial
  | configureLogRotation => exact configureLogRotation_accepts_iff harm
  | removeLogRotation => exact iff_of_true (removeLogRotation_accepts harm) trivial
  | configureRemoteSyslog => exact iff_of_true (configureRemoteSyslog_accepts harm) trivial
  | removeRemoteSyslog => exact iff_of_true (removeRemoteSyslog_accepts harm) trivial

end EditParity

/-- A host without symbolic links. -/
def plainPaths : Paths := ⟨normpath, fun _ => false⟩

theorem helper_accepts_iff_reload :
    HelperAccepts plainPaths
        (sudoSpec "ReloadService" .medium [actionSteps, "unit", "reload", "sshd.service"]) ↔
      HelperAction.reloadService.Agreed plainPaths (.obj [("unit", .str "sshd.service")]) :=
  helper_accepts_iff rfl

/-- The daemon takes a process number that does not fit the helper's signed ones. -/
theorem signalProcess_refused :
    HelperAction.signalProcess.buildActionSpec (.obj [("pid", .int 3000000000)]) =
        .ok (sudoSpec "SignalProcess" .high [actionSteps, "signal", "TERM", "3000000000"]) ∧
      ¬HelperAccepts plainPaths
        (sudoSpec "SignalProcess" .high [actionSteps, "signal", "TERM", "3000000000"]) := by
  have hspec : HelperAction.signalProcess.buildActionSpec (.obj [("pid", .int 3000000000)]) =
      .ok (sudoSpec "SignalProcess" .high [actionSteps, "signal", "TERM", "3000000000"]) := by
    rfl
  refine ⟨hspec, fun haccepts => ?_⟩
  have hlt := (signal_accepts_iff (arm_of_build hspec)).mp haccepts 3000000000 rfl
  omega

end Sysknife
