import Sysknife.Actions.Validate
import Sysknife.Helpers.Edits

/-!
# Two copies of each grammar

The daemon checks a value with character predicates on a `str`, the helper with a regular
expression on a Python string. This file compares the two, value by value. Where the copies
agree the statement is an equivalence: the helper hands back exactly the texts the daemon's
check passes (`ActionSteps.username_eq_ok` and its kin). The daemon counts bytes and the helper
characters; the classes are ASCII, so on a text that passes the two counts are one.
-/

namespace Sysknife

open Text
open ActionSteps (orRaise matchesAll orRaise_eq_ok)

/-! ### Text -/

theorem isEmpty_iff_toList {s : String} : s.isEmpty = true ↔ s.toList = [] := by
  rw [String.isEmpty_iff, ← String.toList_eq_nil_iff]

theorem startsWith_char {n s : String} {c : Char} (h : n.toList = [c]) :
    startsWith n s = true ↔ s.toList.head? = some c := by
  rw [startsWith, h]
  cases s.toList with
  | nil => simp
  | cons d ds =>
    simp only [List.isPrefixOf, Bool.and_true, beq_iff_eq, List.head?_cons, Option.some.injEq]
    exact eq_comm

theorem allChars_iff {p : Char → Bool} {s : String} :
    allChars p s = true ↔ ∀ c ∈ s.toList, p c = true := by
  rw [allChars, List.all_eq_true]

/-- A class of ASCII characters. -/
def Ascii (q : Char → Bool) : Prop := ∀ c, q c = true → c.utf8Size = 1

theorem ascii_alnumOr {e : String} (h : (e.toList.all fun c => c.utf8Size == 1) = true) :
    Ascii (alnumOr e) := by
  intro c hc
  rcases alnumOr_iff.mp hc with hc | hc
  · exact utf8Size_of_isAlphanum hc
  · exact beq_iff_eq.mp (List.all_eq_true.mp h c hc)

/-- A class with further characters in it. -/
theorem alnumOr_mono {e f : String} (h : e.toList ⊆ f.toList) (c : Char) (hc : alnumOr e c = true) :
    alnumOr f c = true :=
  alnumOr_iff.mpr ((alnumOr_iff.mp hc).imp_right fun hc => h hc)

/-- A class without some of its characters is the class of the rest. -/
theorem alnumOr_iff_barred {e f : String} {b : List Char}
    (hf : ∀ c, c ∈ e.toList ↔ c ∈ f.toList ∧ c ∉ b)
    (hb : (b.all fun c => !c.isAlphanum) = true) (c : Char) :
    alnumOr e c = true ↔ alnumOr f c = true ∧ c ∉ b := by
  rw [alnumOr_iff, alnumOr_iff, hf c]
  constructor
  · rintro (hc | ⟨hc, hbar⟩)
    · refine ⟨.inl hc, fun hmem => ?_⟩
      have hclass := List.all_eq_true.mp hb c hmem
      rw [hc] at hclass
      exact absurd hclass (by decide)
    · exact ⟨.inr hc, hbar⟩
  · rintro ⟨hc | hc, hbar⟩
    · exact .inl hc
    · exact .inr ⟨hc, hbar⟩

/-- A first character and a bounded number of further ones, as the daemon counts them. -/
theorem matchesAll_one_rep {p q : Char → Bool} {n : ℕ} {s : String} (hq : Ascii q)
    (hpq : ∀ c, p c = true → q c = true) :
    matchesAll (.seq (.one p) (.rep q 0 (some n))) s = true ↔
      s.toList.head?.any p = true ∧ byteLen s ≤ n + 1 ∧ allChars q s = true := by
  rw [matchesAll, Pattern.fullmatch_one_seq_rep hpq, allChars_iff]
  constructor
  · rintro ⟨hhead, hall, hlen⟩
    rw [byteLen_of_ascii fun c hc => hq c (hall c hc)]
    exact ⟨hhead, hlen n rfl, hall⟩
  · rintro ⟨hhead, hlen, hall⟩
    have := length_le_byteLen s
    refine ⟨hhead, hall, fun m hm => ?_⟩
    rw [Option.mem_some_iff] at hm
    omega

/-- A first character from the class without some of its characters: the text is not empty and
does not begin with one of those. -/
theorem head_any_barred {p q : Char → Bool} {barred : List Char} {s : String}
    (hp : ∀ c, p c = true ↔ q c = true ∧ c ∉ barred) (hall : allChars q s = true) :
    s.toList.head?.any p = true ↔ s.toList ≠ [] ∧ ∀ c ∈ barred, s.toList.head? ≠ some c := by
  have hall := allChars_iff.mp hall
  cases h : s.toList with
  | nil => simp
  | cons d ds =>
    have hd : q d = true := hall d (by simp [h])
    have hbarred : (∀ c ∈ barred, ¬d = c) ↔ d ∉ barred :=
      ⟨fun hne hd => hne d hd rfl, fun hd c hc heq => hd (heq ▸ hc)⟩
    simp [hp, hd, hbarred]

/-! ### Accounts, units and arguments -/

namespace ActionSteps

variable {s t : String}

theorem username_eq_ok : username s = .ok t ↔ usernameOk s = true ∧ t = s := by
  rw [username, orRaise_eq_ok]
  refine and_congr_left' ?_
  have hbarred := alnumOr_iff_barred (e := "_") (f := "._-") (b := ['.', '-']) (by simp; grind)
    (by decide)
  have hchars := matchesAll_one_rep (n := 31) (s := s) (ascii_alnumOr (e := "._-") (by decide))
    fun c hc => ((hbarred c).mp hc).1
  have hhead := head_any_barred (s := s) hbarred
  simp only [usernamePattern, usernameOk, Bool.not_or, Bool.not_not, Bool.and_eq_true, hchars,
    Bool.not_eq_true', decide_eq_true_eq, ← Bool.not_eq_true, isEmpty_iff_toList,
    startsWith_char (n := "-") (c := '-') rfl, startsWith_char (n := ".") (c := '.') rfl]
  simp only [List.forall_mem_cons, List.not_mem_nil, ne_eq] at hhead
  simp only [maxUsernameLen]
  clear hbarred hchars
  tauto

theorem unitName_eq_ok : unitName s = .ok t ↔ unitNameOk s = true ∧ t = s := by
  rw [unitName, orRaise_eq_ok]
  refine and_congr_left' ?_
  simp only [matchesAll, unitPattern, unitNameOk, Bool.not_or, Bool.not_not, Bool.and_eq_true,
    Pattern.fullmatch_plus, Bool.not_eq_true', allChars_iff, ← Bool.not_eq_true,
    isEmpty_iff_toList, ne_eq]
  tauto

theorem bareUnit_eq (unit : String) : bareUnit unit = bareUnitName unit := by
  have hsuffixes : unitSuffixes = unitTypeSuffixes := rfl
  unfold bareUnit bareUnitName
  rewrite [hsuffixes]
  -- named before the match is looked at, or the search for `@` is run on an open term
  extract_lets lower bare stripped
  have hbare : stripped = bare := rfl
  rewrite [hbare]
  clear_value bare
  cases splitOnce "@" bare <;> rfl

theorem activatableUnit_eq_ok :
    activatableUnit s = .ok t ↔ activatableUnitOk s = true ∧ t = s := by
  simp only [activatableUnit, bind_eq_ok_iff, unitName_eq_ok, ite_error_eq_ok_iff, bareUnit_eq,
    activatableUnitOk, Bool.and_eq_true, Bool.not_eq_true', Bool.or_eq_false_iff,
    Bool.not_eq_true, Except.ok.injEq]
  constructor
  · rintro ⟨u, ⟨hs, rfl⟩, hroot, hpower, rfl⟩
    exact ⟨⟨hs, hroot, hpower⟩, rfl⟩
  · rintro ⟨⟨hs, hroot, hpower⟩, rfl⟩
    exact ⟨t, ⟨hs, rfl⟩, hroot, hpower, rfl⟩

theorem stoppableUnit_eq_ok : stoppableUnit s = .ok t ↔ stoppableUnitOk s = true ∧ t = s := by
  simp only [stoppableUnit, bind_eq_ok_iff, unitName_eq_ok, ite_error_eq_ok_iff, bareUnit_eq,
    stoppableUnitOk, isProtectedUnit, Bool.and_eq_true, Bool.not_eq_true', Bool.not_eq_true,
    Except.ok.injEq]
  constructor
  · rintro ⟨u, ⟨hs, rfl⟩, hfree, rfl⟩
    exact ⟨⟨hs, hfree⟩, rfl⟩
  · rintro ⟨⟨hs, hfree⟩, rfl⟩
    exact ⟨t, ⟨hs, rfl⟩, hfree, rfl⟩

theorem safe_eq_ok : safe s = .ok t ↔ safeArgOk s = true ∧ t = s := by
  rw [safe, orRaise_eq_ok]
  refine and_congr_left' ?_
  have hbarred := alnumOr_iff_barred (e := "._:/+@") (f := "._:/+@-") (b := ['-'])
    (by simp; grind) (by decide)
  have hchars := matchesAll_one_rep (n := 253) (s := s)
    (ascii_alnumOr (e := "._:/+@-") (by decide)) fun c hc => ((hbarred c).mp hc).1
  have hhead := head_any_barred (s := s) hbarred
  simp only [safePattern, safeArgOk, Bool.and_eq_true, hchars, Bool.not_eq_true',
    decide_eq_true_eq, ← Bool.not_eq_true, isEmpty_iff_toList,
    startsWith_char (n := "-") (c := '-') rfl]
  simp only [List.forall_mem_cons, List.not_mem_nil, ne_eq] at hhead
  simp only [safeArgMaxBytes]
  clear hbarred hchars
  tauto

theorem absolutePath_eq_ok :
    absolutePath s = .ok t ↔ absolutePathOk maxFstabFieldLen s = true ∧ t = s := by
  have hascii : Ascii (alnumOr "/_.-") := ascii_alnumOr (by decide)
  rw [absolutePath, ite_error_eq_ok_iff, orRaise_eq_ok, ← and_assoc]
  refine and_congr_left' ?_
  simp only [matchesAll, pathPattern, absolutePathOk, Bool.and_eq_true, Bool.or_eq_true,
    Pattern.fullmatch_rep, Bool.not_eq_true', decide_eq_true_eq, allChars_iff, not_or,
    Bool.not_eq_false, Bool.not_eq_true, Nat.not_lt, ← String.length_toList]
  constructor
  · rintro ⟨⟨⟨hroot, hdots⟩, hlen⟩, hall, -, -⟩
    rw [byteLen_of_ascii fun c hc => hascii c (hall c hc)]
    exact ⟨⟨⟨hroot, hlen⟩, hdots⟩, hall⟩
  · rintro ⟨⟨⟨hroot, hlen⟩, hdots⟩, hall⟩
    have hpos := (startsWith_char (c := '/') rfl).mp hroot
    have hle := length_le_byteLen s
    refine ⟨⟨⟨hroot, hdots⟩, hle.trans hlen⟩, hall, ?_, by simp⟩
    cases h : s.toList with
    | nil => simp [h] at hpos
    | cons c cs => simp

theorem not_isEmpty_of_head_any {p : Char → Bool} (h : s.toList.head?.any p = true) :
    (!s.isEmpty) = true := by
  cases hs : s.toList with
  | nil => simp [hs] at h
  | cons c cs =>
    rw [Bool.not_eq_true', ← Bool.not_eq_true, isEmpty_iff_toList, hs]
    exact List.cons_ne_nil c cs

theorem lvmName_eq_ok : lvmName s = .ok t ↔ lvmNameOk s = true ∧ t = s := by
  rw [lvmName, orRaise_eq_ok]
  refine and_congr_left' ?_
  have hfirst : (alnumOr "_" : Char → Bool) = fun c => c.isAlphanum || c == '_' := by
    funext c
    rw [Bool.eq_iff_iff, alnumOr_iff]
    simp
  have hchars := matchesAll_one_rep (n := 126) (s := s)
    (ascii_alnumOr (e := "+_.-") (by decide)) (alnumOr_mono (e := "_") (by decide))
  have hne := not_isEmpty_of_head_any (s := s) (p := alnumOr "_")
  simp only [lvmNamePattern, lvmNameOk, Bool.and_eq_true, hchars, decide_eq_true_eq, ← hfirst]
  simp only [maxLvmNameLen]
  tauto

/-- `apt_package` for the verb that may end in `+` and for the others. -/
theorem aptPackage_eq_ok {operation : String} :
    aptPackage s operation = .ok t ↔
      (installPackageOk s && (operation == "install" || !endsWith "+" s)) = true ∧ t = s := by
  rw [aptPackage, orRaise_eq_ok]
  refine and_congr_left' ?_
  have hfirst : (alnumOr "" : Char → Bool) = Char.isAlphanum := by
    funext c
    rw [Bool.eq_iff_iff, alnumOr_iff]
    simp
  have hchars := matchesAll_one_rep (n := 127) (s := s)
    (ascii_alnumOr (e := "+._:=~-") (by decide)) (alnumOr_mono (e := "") (by decide))
  have hne := not_isEmpty_of_head_any (s := s) (p := alnumOr "")
  -- the class has no `/`, so the daemon's separate test for one adds nothing
  have hslash : allChars (alnumOr "+._:=~-") s = true → contains "/" s = false := by
    intro hall
    rw [← Bool.not_eq_true, contains, decide_eq_true_eq]
    intro hinfix
    have hmem : '/' ∈ s.toList := hinfix.subset (by decide)
    exact absurd (allChars_iff.mp hall '/' hmem) (by decide)
  simp only [packagePattern, installPackageOk, Bool.and_eq_true, Bool.not_or, Bool.not_not,
    Bool.not_and, hchars, decide_eq_true_eq, ← hfirst, Bool.or_eq_true, beq_iff_eq,
    Bool.not_eq_eq_eq_not, Bool.not_true, bne]
  simp only [maxAptPackageLen]
  simp only [Bool.not_eq_true'] at hne
  tauto

theorem rpmPackage_eq_ok : rpmPackage s = .ok t ↔ installPackageOk s = true ∧ t = s := by
  rw [rpmPackage, aptPackage_eq_ok]
  simp

theorem rebaseParts_eq_ok (previous : String) (parts : List String) :
    rebaseParts previous parts = .ok () ↔ rebasePartsOk previous parts = true := by
  induction parts generalizing previous with
  | nil => simp [rebaseParts, rebasePartsOk]
  | cons part parts ih =>
    simp only [rebaseParts, rebasePartsOk, ite_error_eq_ok_iff, ih, Bool.and_eq_true,
      Bool.not_eq_true', Bool.not_eq_true]
    exact Iff.rfl

theorem rebaseRef_eq_ok : rebaseRef s = .ok t ↔ rebaseRefOk s = true ∧ t = s := by
  simp only [rebaseRef, bind_eq_ok_iff, safe_eq_ok, orRaise_eq_ok, rebaseRefOk, Bool.and_eq_true]
  constructor
  · rintro ⟨_, ⟨hsafe, rfl⟩, _, hparts, hdots, rfl⟩
    exact ⟨⟨⟨hsafe, (rebaseParts_eq_ok _ _).mp hparts⟩, hdots⟩, rfl⟩
  · rintro ⟨⟨⟨hsafe, hparts⟩, hdots⟩, rfl⟩
    exact ⟨t, ⟨hsafe, rfl⟩, (), (rebaseParts_eq_ok _ _).mpr hparts, hdots, rfl⟩

/-! ### Kernel arguments -/

theorem kargToken_eq_ok : kargToken s = .ok t ↔ kernelArgTokenOk s = true ∧ t = s := by
  rw [kargToken, orRaise_eq_ok]
  refine and_congr_left' ?_
  have hclass : alnumOr "._:/+@-=," = alnumOr "._:/+@=,-" := alnumOr_congr (by decide) (by decide)
  have hbarred := alnumOr_iff_barred (e := "._:/+@=,") (f := "._:/+@=,-") (b := ['-'])
    (by simp; grind) (by decide)
  have hascii : Ascii (alnumOr "._:/+@=,-") := ascii_alnumOr (by decide)
  have hhead := head_any_barred (s := s) hbarred
  simp only [List.forall_mem_cons, List.not_mem_nil, ne_eq] at hhead
  have hlen : allChars (alnumOr "._:/+@=,-") s = true → byteLen s = s.length := by
    intro hall
    rw [byteLen_of_ascii fun c hc => hascii c (allChars_iff.mp hall c hc), String.length_toList]
  simp only [kargPattern, kernelArgTokenOk, matchesAll, hclass, Bool.and_eq_true, Bool.not_or,
    Bool.not_not, Pattern.fullmatch_one_seq_rep fun c hc => ((hbarred c).mp hc).1,
    ← allChars_iff, Bool.not_eq_true', ← Bool.not_eq_true, decide_eq_true_eq, isEmpty_iff_toList,
    startsWith_char (n := "-") (c := '-') rfl]
  simp only [safeArgMaxBytes]
  constructor
  · rintro ⟨hlong, hfirst, hall, -⟩
    have := hlen hall
    have := (hhead hall).mp hfirst
    simp_all
  · rintro ⟨⟨⟨hne, hlong⟩, hhyphen⟩, hall⟩
    have := hlen hall
    refine ⟨by omega, (hhead hall).mpr ⟨hne, hhyphen, by simp⟩, hall, by simp⟩

theorem kargNormalized_eq (value : String) : kargNormalized value = normalizedKernelArg value := by
  unfold kargNormalized normalizedKernelArg
  extract_lets lower
  have hlower : Text.lower value = lower := rfl
  rw [hlower]
  clear_value lower
  rcases splitOnce "=" lower with _ | ⟨key, rest⟩ <;> rfl

/-- A table with one entry a key, searched and looked up. -/
theorem any_eq_lookup {β : Type} {l : List (String × β)} (hl : (l.map Prod.fst).Nodup)
    (key : String) (q : β → Bool) :
    (l.any fun entry => entry.1 == key && q entry.2) = (l.lookup key).any q := by
  induction l with
  | nil => rfl
  | cons entry l ih =>
    obtain ⟨k, v⟩ := entry
    rw [List.map_cons, List.nodup_cons] at hl
    rw [List.any_cons, List.lookup_cons]
    by_cases hkey : k = key
    · subst hkey
      have hrest : (l.any fun e => e.1 == k && q e.2) = false := by
        rw [List.any_eq_false]
        intro e he
        have hne : e.1 ≠ k := fun h => hl.1 (List.mem_map.mpr ⟨e, he, h⟩)
        simp [hne]
      simp [hrest]
    · have hne : (key == k) = false := by simpa using Ne.symm hkey
      simp [hkey, hne, ih hl.2]

theorem kargAppend_eq_ok : kargAppend s = .ok t ↔ safeKernelArgOk s = true ∧ t = s := by
  have hflags : ∀ normal : String, (kargFlags ++ kargHardeningFlags).contains normal =
      (Sysknife.kargFlags.contains normal || Sysknife.kargHardeningFlags.contains normal) := by
    intro normal
    rw [show kargFlags = Sysknife.kargFlags from rfl,
      show kargHardeningFlags = Sysknife.kargHardeningFlags from rfl]
    simp
  have hlist : ∀ key rest : String, (Sysknife.kargListValues.any fun entry =>
      entry.1 == key && (split ',' rest).all fun v => entry.2.contains v) =
        (kargListValues.lookup key).any fun values => (split ',' rest).all values.contains :=
    fun key rest => any_eq_lookup (l := Sysknife.kargListValues) (by decide) key fun values =>
      (split ',' rest).all values.contains
  have hhardening : ∀ key rest : String, (Sysknife.kargHardeningValues.any fun entry =>
      entry.1 == key && entry.2.contains rest) =
        ((kargHardeningValues.lookup key).getD []).contains rest := by
    intro key rest
    rw [any_eq_lookup (l := Sysknife.kargHardeningValues) (by decide) key (·.contains rest),
      show kargHardeningValues = Sysknife.kargHardeningValues from rfl]
    cases List.lookup key Sysknife.kargHardeningValues <;> rfl
  have htoken : kargAppend s = .ok t ↔ kernelArgTokenOk s = true ∧ kargAppend s = .ok t := by
    refine ⟨fun h => ⟨?_, h⟩, And.right⟩
    obtain ⟨_, htoken, -⟩ := exists_of_bind_eq_ok h
    exact (kargToken_eq_ok.mp htoken).1
  rw [htoken, safeKernelArgOk, Bool.and_eq_true, and_assoc]
  refine and_congr_right fun htoken => ?_
  rw [kargAppend, kargToken_eq_ok.mpr ⟨htoken, rfl⟩]
  simp only [ok_bind, kargNormalized_eq, orRaise_eq_ok]
  refine and_congr_left' ?_
  generalize normalizedKernelArg s = normal
  generalize splitOnce "=" normal = parts
  rcases parts with _ | ⟨key, rest⟩
  · rw [hflags]
  · simp only [hlist, hhardening]
    exact Iff.rfl

theorem kargDelete_eq_ok : kargDelete s = .ok t ↔ safeKernelArgRemovalOk s = true ∧ t = s := by
  have hlist : ∀ key : String, (Sysknife.kargListValues.any fun entry => entry.1 == key) =
      (kargListValues.lookup key).isSome := by
    intro key
    have h := any_eq_lookup (l := Sysknife.kargListValues) (by decide) key fun _ => true
    simp only [Bool.and_true] at h
    rw [h, show kargListValues = Sysknife.kargListValues from rfl]
    cases List.lookup key Sysknife.kargListValues <;> rfl
  simp only [kargDelete, bind_eq_ok_iff, kargToken_eq_ok, kargNormalized_eq, orRaise_eq_ok,
    safeKernelArgRemovalOk, Bool.and_eq_true, hlist]
  constructor
  · rintro ⟨_, ⟨htoken, rfl⟩, hallowed, rfl⟩
    exact ⟨⟨htoken, hallowed⟩, rfl⟩
  · rintro ⟨⟨htoken, hallowed⟩, rfl⟩
    exact ⟨t, ⟨htoken, rfl⟩, hallowed, rfl⟩

/-! ### Keys -/

/-- The characters a key must not have are the same on both sides. -/
theorem keyChar_eq (c : Char) :
    ("\n\r'|;`$\\&".toList.contains c || !decide (c.toNat < 128) || isAsciiControl c) =
      (decide (c.toNat < 32) || decide (126 < c.toNat) || "'|;`$\\&".toList.contains c) := by
  have hn : c = '\n' → c.toNat < 32 := by
    rintro rfl
    decide
  have hr : c = '\r' → c.toNat < 32 := by
    rintro rfl
    decide
  rw [Bool.eq_iff_iff]
  simp only [isAsciiControl, Bool.or_eq_true, Bool.not_eq_true', decide_eq_true_eq,
    decide_eq_false_iff_not, beq_iff_eq, List.contains_iff_mem]
  simp only [String.reduceToList, List.mem_cons]
  constructor
  · rintro (((h | h | h) | h) | h | h)
    · exact .inl (.inl (hn h))
    · exact .inl (.inl (hr h))
    · exact .inr h
    · omega
    · omega
    · omega
  · rintro ((h | h) | h)
    · exact .inr (.inl h)
    · omega
    · exact .inl (.inl (.inr (.inr h)))

theorem publicKey_eq_ok : publicKey s = .ok t ↔ publicKeyOk s = true ∧ t = s := by
  rw [publicKey, orRaise_eq_ok]
  refine and_congr_left' ?_
  have hchars := fun c => keyChar_eq c
  have htypes : (allowedKeyTypes.any fun p => startsWith p s) = true → s.isEmpty = false := by
    intro h
    obtain ⟨p, hp, hstart⟩ := List.any_eq_true.mp h
    rw [← Bool.not_eq_true, isEmpty_iff_toList]
    intro hnil
    rw [startsWith, hnil, List.isPrefixOf_iff_prefix, List.prefix_nil] at hstart
    have : ∀ q ∈ allowedKeyTypes, q.toList ≠ [] := by decide
    exact this p hp hstart
  have hascii : (s.toList.any fun c => decide (c.toNat < 32) || decide (126 < c.toNat) ||
      "'|;`$\\&".toList.contains c) = false → byteLen s = s.length := by
    intro h
    rw [← String.length_toList]
    refine byteLen_of_ascii fun c hc => utf8Size_of_le ?_
    have hc := List.any_eq_false.mp h c hc
    simp only [Bool.or_eq_true, decide_eq_true_eq, not_or] at hc
    have : c.toNat = c.val.toNat := rfl
    omega
  simp only [publicKeyOk, hchars, Bool.not_or, Bool.not_not, Bool.and_eq_true, Bool.not_eq_true',
    decide_eq_false_iff_not]
  simp only [publicKeyMaxLen]
  constructor
  · rintro ⟨⟨htype, hlen⟩, hnone⟩
    exact ⟨⟨⟨htypes htype, hascii hnone ▸ hlen⟩, htype⟩, hnone⟩
  · rintro ⟨⟨⟨-, hlen⟩, htype⟩, hnone⟩
    exact ⟨⟨htype, hascii hnone ▸ hlen⟩, hnone⟩

/-! ### Sizes of logical volumes -/

/-- Digits, with a fraction or without. -/
def numberPattern : Pattern :=
  .seq (.rep Char.isDigit 1 none) (.opt (.seq (.lit ".") (.rep Char.isDigit 1 none)))

/-- What the daemon asks of the digits of a size. -/
def DigitsOk (l : List Char) : Prop :=
  l ≠ [] ∧ l.count '.' ≤ 1 ∧ (∀ c ∈ l, c.isDigit = true ∨ c = '.') ∧ l.head? ≠ some '.' ∧
    l.getLast? ≠ some '.'

theorem digitsOk_of_digits {l : List Char} (hne : l ≠ []) (hall : ∀ c ∈ l, c.isDigit = true) :
    DigitsOk l := by
  have hdot : '.' ∉ l := fun h => absurd (hall '.' h) (by decide)
  refine ⟨hne, ?_, fun c hc => .inl (hall c hc), fun h => ?_, fun h => ?_⟩
  · rw [List.count_eq_zero_of_not_mem hdot]
    omega
  · exact hdot (List.mem_of_head? h)
  · exact hdot (List.mem_of_getLast? h)

theorem fullmatch_number {l : List Char} : numberPattern.fullmatch l = true ↔ DigitsOk l := by
  rw [numberPattern, Pattern.fullmatch_seq]
  constructor
  · rintro ⟨a, b, rfl, ha, hb⟩
    obtain ⟨hane, ha⟩ := Pattern.fullmatch_plus.mp ha
    rcases Pattern.fullmatch_opt.mp hb with rfl | hb
    · rw [List.append_nil]
      exact digitsOk_of_digits hane ha
    · obtain ⟨f, rfl, hf⟩ := Pattern.fullmatch_lit_seq.mp hb
      obtain ⟨hfne, hf⟩ := Pattern.fullmatch_plus.mp hf
      have hdot : ".".toList = ['.'] := rfl
      have hda : '.' ∉ a := fun h => absurd (ha '.' h) (by decide)
      have hdf : '.' ∉ f := fun h => absurd (hf '.' h) (by decide)
      rw [hdot]
      refine ⟨by simp, ?_, ?_, ?_, ?_⟩
      · simp [List.count_append, List.count_eq_zero_of_not_mem hda,
          List.count_eq_zero_of_not_mem hdf]
      · intro c hc
        simp only [List.mem_append, List.mem_singleton] at hc
        rcases hc with hc | rfl | hc
        · exact .inl (ha c hc)
        · exact .inr rfl
        · exact .inl (hf c hc)
      · rw [List.head?_append_of_ne_nil _ hane]
        exact fun h => hda (List.mem_of_head? h)
      · rw [← List.append_assoc, List.getLast?_append_of_ne_nil _ hfne]
        exact fun h => hdf (List.mem_of_getLast? h)
  · rintro ⟨hne, hcount, hall, hhead, hlast⟩
    -- the digits in front, and what stands after them
    have hsplit := (List.takeWhile_append_dropWhile (p := Char.isDigit) (l := l)).symm
    refine ⟨l.takeWhile Char.isDigit, l.dropWhile Char.isDigit, hsplit, ?_, ?_⟩
    · refine Pattern.fullmatch_plus.mpr ⟨?_, fun c hc => List.mem_takeWhile_imp hc⟩
      obtain ⟨c, cs, rfl⟩ := List.exists_cons_of_ne_nil hne
      have hc : c.isDigit = true := by
        rcases hall c List.mem_cons_self with hc | rfl
        · exact hc
        · exact absurd rfl hhead
      simp [hc]
    · refine Pattern.fullmatch_opt.mpr ?_
      cases hb : l.dropWhile Char.isDigit with
      | nil => exact .inl rfl
      | cons c f =>
        have hmem : ∀ d ∈ c :: f, d ∈ l := fun d hd =>
          (List.dropWhile_suffix _).subset (hb ▸ hd)
        have hc : c = '.' := by
          have hnot : c.isDigit = false := by
            have := List.head_dropWhile_not Char.isDigit (l := l) (by simp [hb])
            simpa [hb] using this
          rcases hall c (hmem c List.mem_cons_self) with hc | hc
          · rw [hnot] at hc
            exact absurd hc (by decide)
          · exact hc
        subst hc
        refine .inr (Pattern.fullmatch_lit_seq.mpr ⟨f, rfl, Pattern.fullmatch_plus.mpr ⟨?_, ?_⟩⟩)
        · rintro rfl
          rw [hsplit, hb] at hlast
          simp at hlast
        · intro d hd
          rcases hall d (hmem d (List.mem_cons_of_mem _ hd)) with hdigit | rfl
          · exact hdigit
          · rw [hsplit, hb, List.count_append, List.count_cons_self] at hcount
            have := List.count_pos_iff.mpr hd
            omega

/-- The size of a volume without its sign. -/
def Sized (l : List Char) : Prop :=
  DigitsOk l ∨ ∃ c ∈ "kKmMgGtTpP".toList, ∃ d, l = d ++ [c] ∧ DigitsOk d

/-- A number with a unit or without: the last character is the unit if it is a letter. -/
theorem fullmatch_sized {l : List Char} :
    (Pattern.seq (.rep Char.isDigit 1 none)
      (.seq (.opt (.seq (.lit ".") (.rep Char.isDigit 1 none)))
        (.opt (.one "kKmMgGtTpP".toList.contains)))).fullmatch l = true ↔ Sized l := by
  have hassoc : ∀ l : List Char, (∃ a b, l = a ++ b ∧
      (Pattern.rep Char.isDigit 1 none).fullmatch a = true ∧
        (Pattern.opt (.seq (.lit ".") (.rep Char.isDigit 1 none))).fullmatch b = true) ↔
          DigitsOk l := by
    intro l
    rw [← fullmatch_number, numberPattern, Pattern.fullmatch_seq]
  rw [Pattern.fullmatch_seq]
  constructor
  · rintro ⟨a, b, rfl, ha, hb⟩
    obtain ⟨f, u, rfl, hf, hu⟩ := Pattern.fullmatch_seq.mp hb
    have hnumber := (hassoc (a ++ f)).mp ⟨a, f, rfl, ha, hf⟩
    rcases Pattern.fullmatch_opt.mp hu with rfl | hu
    · rw [List.append_nil]
      exact .inl hnumber
    · obtain ⟨c, rfl, hc⟩ := Pattern.fullmatch_one.mp hu
      exact .inr ⟨c, by simpa using hc, a ++ f, by simp, hnumber⟩
  · rintro (h | ⟨c, hc, d, rfl, h⟩)
    · obtain ⟨a, f, rfl, ha, hf⟩ := (hassoc l).mpr h
      exact ⟨a, f, rfl, ha, Pattern.fullmatch_seq.mpr ⟨f, [], by simp, hf, rfl⟩⟩
    · obtain ⟨a, f, rfl, ha, hf⟩ := (hassoc d).mpr h
      refine ⟨a, f ++ [c], by simp, ha, Pattern.fullmatch_seq.mpr ⟨f, [c], rfl, hf, ?_⟩⟩
      exact Pattern.fullmatch_opt.mpr (.inr (Pattern.fullmatch_one.mpr ⟨c, rfl, by simpa using hc⟩))

theorem Sized.chars {l : List Char} (h : Sized l) :
    ∀ c ∈ l, c.isDigit = true ∨ c ∈ ".kKmMgGtTpP".toList := by
  have hdigits : ∀ {d : List Char}, DigitsOk d →
      ∀ c ∈ d, c.isDigit = true ∨ c ∈ ".kKmMgGtTpP".toList := by
    intro d hd c hc
    rcases hd.2.2.1 c hc with h | rfl
    · exact .inl h
    · exact .inr (by decide)
  rcases h with h | ⟨u, hu, d, rfl, hd⟩
  · exact hdigits h
  · intro c hc
    rcases List.mem_append.mp hc with hc | hc
    · exact hdigits hd c hc
    · rw [List.mem_singleton.mp hc]
      exact .inr (List.mem_cons_of_mem _ hu)

/-- The daemon takes the last character for the unit if it is a letter. -/
theorem sized_iff {l : List Char} :
    Sized l ↔ (l.getLast?.filter Char.isAlpha).all "kKmMgGtTpP".toList.contains = true ∧
      DigitsOk (if (l.getLast?.filter Char.isAlpha).isSome then l.dropLast else l) := by
  rcases List.eq_nil_or_concat l with rfl | ⟨d, c, rfl⟩
  · simp [Sized, DigitsOk]
  · have hunits : ∀ u ∈ "kKmMgGtTpP".toList, u.isAlpha = true :=
      List.all_eq_true.mp (by decide)
    have hlast : (d ++ [c]).getLast? = some c := by simp
    have hdrop : (d ++ [c]).dropLast = d := by simp
    have hconcat : Sized (d ++ [c]) ↔
        DigitsOk (d ++ [c]) ∨ (c ∈ "kKmMgGtTpP".toList ∧ DigitsOk d) := by
      refine or_congr_right ⟨?_, fun ⟨hc, hd⟩ => ⟨c, hc, d, rfl, hd⟩⟩
      rintro ⟨u, hu, e, heq, he⟩
      obtain ⟨rfl, hcu⟩ := List.append_inj' heq rfl
      rw [List.singleton_inj.mp hcu]
      exact ⟨hu, he⟩
    rw [List.concat_eq_append, hconcat, hlast]
    by_cases halpha : c.isAlpha = true
    · have hno : ¬DigitsOk (d ++ [c]) := by
        intro h
        rcases h.2.2.1 c (by simp) with hdigit | rfl
        · exact not_isAlpha_of_isDigit hdigit halpha
        · exact absurd halpha (by decide)
      simp [Option.filter, halpha, hno, hdrop]
    · have hno : c ∉ "kKmMgGtTpP".toList := fun h => halpha (hunits c h)
      rw [or_iff_left fun h => hno h.1]
      simp [Option.filter, halpha]

/-- The sign is there exactly when the daemon strips one. -/
theorem lvmSizePattern_iff :
    matchesAll lvmSizePattern s = true ↔ Sized ((stripStart "+" s).getD s).toList := by
  rw [matchesAll, lvmSizePattern, Pattern.fullmatch_opt_seq, fullmatch_sized,
    Pattern.fullmatch_lit_seq]
  cases h : stripStart "+" s with
  | none =>
    refine ⟨?_, .inl⟩
    rintro (hsized | ⟨cs, hcs, -⟩)
    · exact hsized
    · have hstrip : stripStart "+" s = some (String.ofList cs) :=
        stripStart_eq_some.mpr (by simpa using hcs)
      rw [h] at hstrip
      exact absurd hstrip (by simp)
  | some b =>
    have hlist := stripStart_eq_some.mp h
    refine ⟨?_, fun hsized => .inr ⟨b.toList, hlist, fullmatch_sized.mpr hsized⟩⟩
    rintro (hsized | ⟨cs, hcs, hsized⟩)
    · have hplus : '+' ∈ s.toList := by
        rw [hlist]
        exact List.mem_cons_self
      rcases hsized.chars '+' hplus with hc | hc
      · exact absurd hc (by decide)
      · exact absurd hc (by decide)
    · rw [hlist, List.append_cancel_left_eq] at hcs
      rw [Option.getD_some, hcs]
      exact fullmatch_sized.mp hsized

theorem byteLen_of_sized (h : Sized ((stripStart "+" s).getD s).toList) :
    byteLen s = s.length := by
  have hascii : ∀ c ∈ "+.kKmMgGtTpP".toList, (c.utf8Size == 1) = true :=
    List.all_eq_true.mp (by decide)
  rw [← String.length_toList]
  refine byteLen_of_ascii fun c hc => ?_
  have hchar : c = '+' ∨ c ∈ ((stripStart "+" s).getD s).toList := by
    cases hs : stripStart "+" s with
    | none => exact .inr hc
    | some b =>
      rw [stripStart_eq_some.mp hs] at hc
      exact List.mem_cons.mp hc
  rcases hchar with rfl | hc
  · exact beq_iff_eq.mp (hascii '+' (by decide))
  · rcases h.chars c hc with hdigit | hc
    · exact utf8Size_of_isAlphanum (by simp [Char.isAlphanum, hdigit])
    · exact beq_iff_eq.mp (hascii c (List.mem_cons_of_mem _ hc))

theorem digitsOk_iff {l : List Char} :
    (!(l.isEmpty || decide (1 < l.count '.') || !l.all (fun c => c.isDigit || c == '.') ||
      l.head? == some '.' || l.getLast? == some '.')) = true ↔ DigitsOk l := by
  simp [DigitsOk, and_assoc]

theorem lvmSize_eq_ok : lvmSize s = .ok t ↔ lvmSizeOk s = true ∧ t = s := by
  rw [lvmSize, orRaise_eq_ok]
  refine and_congr_left' ?_
  have hlen := byteLen_of_sized (s := s)
  simp only [lvmSizeOk, Bool.and_eq_true, digitsOk_iff, and_assoc, ← sized_iff, decide_eq_true_eq]
  simp only [maxLvmSizeLen, Bool.not_or, Bool.not_not, Bool.and_eq_true, Bool.not_eq_true',
    decide_eq_false_iff_not, lvmSizePattern_iff]
  constructor
  · rintro ⟨hlong, hsized⟩
    rw [hlen hsized]
    exact ⟨Nat.not_lt.mp hlong, hsized⟩
  · rintro ⟨hlong, hsized⟩
    rw [hlen hsized] at hlong
    exact ⟨Nat.not_lt.mpr hlong, hsized⟩

end ActionSteps

end Sysknife
