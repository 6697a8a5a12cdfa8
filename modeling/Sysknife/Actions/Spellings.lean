import Sysknife.Actions.Validate

/-!
# The spellings of a unit

A unit is named in any case, with or without an instance and with or without the suffix of its
type, and the screens on units compare what is left of a name without these (`bareUnitName`).

`screens_refuse_iff`: a spelling of a listed unit is refused unless it has no instance and the
suffix of a timer, a swap, a device or an automount, which are not stripped. Of a family of
protected units, every spelling is refused.
-/

namespace Sysknife

open Text

/-- The suffixes of the unit types of systemd. -/
def systemdUnitTypes : List String :=
  [".service", ".socket", ".device", ".mount", ".automount", ".swap", ".target", ".path", ".timer",
    ".slice", ".scope"]

/-- The types that `bareUnitName` does not know. -/
def unstrippedTypes : List String := [".device", ".automount", ".swap", ".timer"]

/-- Ignoring case, the name is that of a unit with an optional instance and an optional type. -/
structure Spells (name unit inst suffix : String) : Prop where
  text : lower name = unit ++ inst ++ suffix
  inst : inst = "" ∨ startsWith "@" inst = true
  suffix : suffix = "" ∨ suffix ∈ systemdUnitTypes

/-- The name without the suffix of its type. -/
def stripType (lower : String) : String :=
  (unitTypeSuffixes.findSome? fun suffix => stripSuffix suffix lower).getD lower

theorem bareUnitName_eq (unit : String) :
    bareUnitName unit = ((splitOnce "@" (stripType (lower unit))).map Prod.fst).getD
      (stripType (lower unit)) := by
  unfold bareUnitName
  extract_lets low stripped
  have hstripped : stripped = stripType (lower unit) := rfl
  rw [← hstripped]
  cases splitOnce "@" stripped with
  | some pieces => rfl
  | none => rfl

/-! ### Suffixes -/

theorem stripSuffix_eq_some {suffix s t : String} :
    stripSuffix suffix s = some t ↔ s.toList = t.toList ++ suffix.toList := by
  rw [stripSuffix]
  by_cases h : endsWith suffix s = true
  · obtain ⟨front, hfront⟩ := List.isSuffixOf_iff_suffix.mp h
    have hlen : s.toList.length - suffix.length = front.length := by
      rw [← hfront, List.length_append, String.length_toList, Nat.add_sub_cancel]
    rw [if_pos h, hlen, Option.some.injEq, ← hfront, List.take_left, List.append_cancel_right_eq]
    constructor
    · rintro rfl
      rw [String.toList_ofList]
    · rintro rfl
      rw [String.ofList_toList]
  · rw [if_neg h]
    refine ⟨fun hnone => (by cases hnone), fun heq => ?_⟩
    exact absurd (List.isSuffixOf_iff_suffix.mpr ⟨t.toList, heq.symm⟩) h

/-- A text with one dot at its front. -/
def Dotted (suffix : List Char) : Prop := ∃ a, suffix = '.' :: a ∧ '.' ∉ a

theorem dotted_of_type {suffix : String} (h : suffix ∈ unitTypeSuffixes ++ systemdUnitTypes) :
    Dotted suffix.toList := by
  have hall : ∀ s ∈ unitTypeSuffixes ++ systemdUnitTypes,
      s.toList = '.' :: s.toList.tail ∧ '.' ∉ s.toList.tail := by decide
  exact ⟨_, hall suffix h⟩

theorem at_notMem_of_type {suffix : String} (h : suffix ∈ unitTypeSuffixes ++ systemdUnitTypes) :
    '@' ∉ suffix.toList := by
  have hall : ∀ s ∈ unitTypeSuffixes ++ systemdUnitTypes, '@' ∉ s.toList := by decide
  exact hall suffix h

/-- Where the last dot is, a text is cut in one way only. -/
theorem append_dotted_inj {x y u v : List Char} (hu : Dotted u) (hv : Dotted v)
    (h : x ++ u = y ++ v) : x = y ∧ u = v := by
  obtain ⟨a, rfl, ha⟩ := hu
  obtain ⟨b, rfl, hb⟩ := hv
  rcases List.append_eq_append_iff.mp h with ⟨c, rfl, hc⟩ | ⟨c, rfl, hc⟩
  · cases c with
    | nil => exact ⟨(List.append_nil x).symm, hc⟩
    | cons d c =>
      obtain ⟨-, rfl⟩ := List.cons.inj hc
      exact absurd (List.mem_append_right c List.mem_cons_self) ha
  · cases c with
    | nil => exact ⟨List.append_nil y, hc.symm⟩
    | cons d c =>
      obtain ⟨-, rfl⟩ := List.cons.inj hc
      exact absurd (List.mem_append_right c List.mem_cons_self) hb

/-- Either nothing is stripped, because no suffix of the list is there, or one of the list is. -/
theorem stripType_spec (t : String) :
    (stripType t = t ∧ ∀ suffix ∈ unitTypeSuffixes, ∀ x, t.toList ≠ x ++ suffix.toList) ∨
      ∃ suffix ∈ unitTypeSuffixes, t.toList = (stripType t).toList ++ suffix.toList := by
  cases hfind : unitTypeSuffixes.findSome? fun suffix => stripSuffix suffix t with
  | none =>
    left
    refine ⟨by rw [stripType, hfind, Option.getD_none], fun suffix hsuffix x heq => ?_⟩
    have hsome : stripSuffix suffix t = some (String.ofList x) := by
      rw [stripSuffix_eq_some, heq, String.toList_ofList]
    rw [List.findSome?_eq_none_iff.mp hfind suffix hsuffix] at hsome
    cases hsome
  | some x =>
    right
    obtain ⟨suffix, hsuffix, hx⟩ := List.exists_of_findSome?_eq_some hfind
    refine ⟨suffix, hsuffix, ?_⟩
    rw [stripType, hfind, Option.getD_some]
    exact stripSuffix_eq_some.mp hx

section Spelling

variable {name unit inst suffix : String}

theorem mem_types_of_strip (h : suffix ∈ unitTypeSuffixes) :
    suffix ∈ unitTypeSuffixes ++ systemdUnitTypes :=
  List.mem_append_left _ h

theorem mem_types_of_systemd (h : suffix ∈ systemdUnitTypes) :
    suffix ∈ unitTypeSuffixes ++ systemdUnitTypes :=
  List.mem_append_right _ h

/-- Stripping a type leaves what stands before an instance. -/
theorem stripType_of_instance {t : String} {l r : List Char} (ht : t.toList = l ++ '@' :: r) :
    ∃ r', (stripType t).toList = l ++ '@' :: r' := by
  rcases stripType_spec t with ⟨hsame, -⟩ | ⟨suffix, hsuffix, hcut⟩
  · exact ⟨r, by rw [hsame, ht]⟩
  · have hat : '@' ∉ suffix.toList := at_notMem_of_type (mem_types_of_strip hsuffix)
    rw [ht] at hcut
    -- The stripped type has no `@`, so it ends after the one of the instance.
    rcases List.append_eq_append_iff.mp hcut with ⟨c, hc, hrest⟩ | ⟨c, -, hrest⟩
    · cases c with
      | nil =>
        rw [List.nil_append] at hrest
        rw [← hrest] at hat
        exact absurd List.mem_cons_self hat
      | cons d c =>
        obtain ⟨rfl, -⟩ := List.cons.inj hrest
        exact ⟨c, hc⟩
    · exact absurd (hrest ▸ List.mem_append_right c List.mem_cons_self) hat

/-- **What is left of a spelling**: the unit, with a type that is not stripped if there is no
instance. -/
theorem bareUnitName_of_spells (h : Spells name unit inst suffix) (hdot : '.' ∉ unit.toList)
    (hat : '@' ∉ unit.toList) :
    bareUnitName name = if inst = "" ∧ suffix ∈ unstrippedTypes then unit ++ suffix else unit := by
  obtain ⟨htext, hinst, hsuffix⟩ := h
  have hcut : ∀ t : String, '@' ∉ t.toList → splitOnce "@" t = none := fun t ht =>
    splitOnce_none_of_notMem (c := '@') (by decide) ht
  rw [bareUnitName_eq, htext]
  rcases hinst with rfl | hinst
  · rw [String.append_empty]
    rcases hsuffix with rfl | hsuffix
    · -- the name is the unit, and has no dot to strip a type at
      have hsame : stripType unit = unit := by
        rcases stripType_spec unit with ⟨hsame, -⟩ | ⟨suffix, hsuffix, hcut⟩
        · exact hsame
        · obtain ⟨a, ha, -⟩ := dotted_of_type (mem_types_of_strip hsuffix)
          rw [hcut, ha] at hdot
          exact absurd (List.mem_append_right _ List.mem_cons_self) hdot
      rw [String.append_empty, hsame, hcut unit hat, if_neg (by decide)]
      rfl
    · have hdotted := dotted_of_type (mem_types_of_systemd hsuffix)
      have hnoat : '@' ∉ (unit ++ suffix).toList := by
        rw [String.toList_append, List.mem_append]
        exact not_or.mpr ⟨hat, at_notMem_of_type (mem_types_of_systemd hsuffix)⟩
      -- Either no known type is stripped, or the one that is is the suffix.
      rcases stripType_spec (unit ++ suffix) with ⟨hsame, hnone⟩ | ⟨suffix', hsuffix', hstrip⟩
      · have hmem : suffix ∈ unstrippedTypes := by
          have hsplit : ∀ s ∈ systemdUnitTypes, s ∉ unitTypeSuffixes → s ∈ unstrippedTypes := by
            decide
          refine hsplit suffix hsuffix fun hknown => ?_
          exact hnone suffix hknown unit.toList (String.toList_append ..)
        rw [hsame, hcut _ hnoat, if_pos ⟨rfl, hmem⟩]
        rfl
      · rw [String.toList_append] at hstrip
        obtain ⟨hunit, heq⟩ :=
          append_dotted_inj hdotted (dotted_of_type (mem_types_of_strip hsuffix')) hstrip
        have hnot : suffix ∉ unstrippedTypes := by
          have hdisjoint : ∀ s ∈ unitTypeSuffixes, s ∉ unstrippedTypes := by decide
          rw [String.toList_inj.mp heq]
          exact hdisjoint suffix' hsuffix'
        rw [← String.toList_inj.mp hunit, hcut unit hat, if_neg fun hboth => hnot hboth.2]
        rfl
  · obtain ⟨rest, hrest⟩ := startsWith_iff.mp hinst
    have hinstance : (unit ++ inst ++ suffix).toList =
        unit.toList ++ '@' :: (rest ++ suffix.toList) := by
      rw [String.toList_append, String.toList_append, hrest, List.append_assoc]
      rfl
    -- The instance is cut off with everything after it, so the type does not matter.
    obtain ⟨r', hr'⟩ := stripType_of_instance hinstance
    have hne : inst ≠ "" := by
      rintro rfl
      cases hrest
    rw [splitOnce_of_notMem (c := '@') (l := []) rfl hr' hat, if_neg fun hboth => hne hboth.1,
      String.ofList_toList]
    rfl

/-! ### The screens -/

theorem listed_plain {unit : String}
    (h : unit ∈ rootShellUnits ++ powerStateUnits ++ resourceLimitProtectedUnits) :
    '.' ∉ unit.toList ∧ '@' ∉ unit.toList := by
  have hall : ∀ e ∈ rootShellUnits ++ powerStateUnits ++ resourceLimitProtectedUnits,
      '.' ∉ e.toList ∧ '@' ∉ e.toList := by decide
  exact hall unit h

theorem family_plain {family : String} (h : family ∈ resourceLimitProtectedPrefixes) :
    '.' ∉ family.toList ∧ '@' ∉ family.toList := by
  have hall : ∀ e ∈ resourceLimitProtectedPrefixes, '.' ∉ e.toList ∧ '@' ∉ e.toList := by decide
  exact hall family h

/-- A family is found in what is left of a name. -/
theorem startsWith_bareUnitName {family : String}
    (hfamily : family ∈ resourceLimitProtectedPrefixes)
    (h : startsWith family (lower name) = true) : startsWith family (bareUnitName name) = true := by
  obtain ⟨hdot, hat⟩ := family_plain hfamily
  rw [startsWith, List.isPrefixOf_iff_prefix] at h
  have hstrip : family.toList <+: (stripType (lower name)).toList := by
    rcases stripType_spec (lower name) with ⟨hsame, -⟩ | ⟨suffix, hsuffix, hcut⟩
    · rwa [hsame]
    · obtain ⟨a, ha, -⟩ := dotted_of_type (mem_types_of_strip hsuffix)
      rw [hcut, ha] at h
      exact isPrefix_of_notMem hdot h
  rw [startsWith, List.isPrefixOf_iff_prefix, bareUnitName_eq]
  cases hsplit : splitOnce "@" (stripType (lower name)) with
  | none => exact hstrip
  | some pieces =>
    obtain ⟨template, instanceName⟩ := pieces
    obtain ⟨htext, -⟩ := splitOnce_eq_some.mp hsplit
    rw [htext] at hstrip
    exact isPrefix_of_notMem hat hstrip

/-- A listed unit is protected by a family only if its own name is of the family. -/
theorem startsWith_unit {family : String} (hfamily : family ∈ resourceLimitProtectedPrefixes)
    (hsuffix : suffix ∈ unstrippedTypes) :
    startsWith family (unit ++ suffix) = startsWith family unit := by
  obtain ⟨hdot, -⟩ := family_plain hfamily
  have hdotted : ∀ s ∈ unstrippedTypes, s.toList = '.' :: s.toList.tail := by decide
  rw [Bool.eq_iff_iff, startsWith, startsWith, List.isPrefixOf_iff_prefix,
    List.isPrefixOf_iff_prefix, String.toList_append, hdotted suffix hsuffix]
  exact ⟨isPrefix_of_notMem hdot, fun h => h.trans (List.prefix_append _ _)⟩

/-- With a type that is not stripped, a name is on no list. -/
theorem append_notMem {unitList : List String} (hplain : ∀ e ∈ unitList, '.' ∉ e.toList)
    (hsuffix : suffix ∈ unstrippedTypes) : unit ++ suffix ∉ unitList := by
  intro hmem
  have hdotted : ∀ s ∈ unstrippedTypes, '.' ∈ s.toList := by decide
  refine hplain _ hmem ?_
  rw [String.toList_append]
  exact List.mem_append_right _ (hdotted suffix hsuffix)

/-- The unit is one whose name begins like a protected family. -/
def OfFamily (unit : String) : Prop :=
  ∃ family ∈ resourceLimitProtectedPrefixes, startsWith family unit = true

theorem isProtectedUnit_iff {bare : String} :
    isProtectedUnit bare = true ↔ bare ∈ resourceLimitProtectedUnits ∨ OfFamily bare := by
  rw [isProtectedUnit, Bool.or_eq_true, List.contains_iff_mem, List.any_eq_true, OfFamily]

theorem activatable_iff (h : Spells name unit inst suffix) (hname : unitNameOk name = true)
    (hunit : unit ∈ rootShellUnits ++ powerStateUnits) :
    activatableUnitOk name = true ↔ inst = "" ∧ suffix ∈ unstrippedTypes := by
  obtain ⟨hdot, hat⟩ := listed_plain (List.mem_append_left resourceLimitProtectedUnits hunit)
  rw [activatableUnitOk, hname, bareUnitName_of_spells h hdot hat, Bool.true_and,
    Bool.not_eq_true', ← Bool.not_eq_true, Bool.or_eq_true, List.contains_iff_mem,
    List.contains_iff_mem, ← List.mem_append]
  by_cases hbare : inst = "" ∧ suffix ∈ unstrippedTypes
  · have hplain : ∀ e ∈ rootShellUnits ++ powerStateUnits, '.' ∉ e.toList := fun e he =>
      (listed_plain (List.mem_append_left _ he)).1
    rw [if_pos hbare]
    exact ⟨fun _ => hbare, fun _ => append_notMem hplain hbare.2⟩
  · rw [if_neg hbare]
    exact ⟨fun hnot => absurd hunit hnot, fun hboth => absurd hboth hbare⟩

theorem isProtectedUnit_spelled (h : Spells name unit inst suffix)
    (hunit : unit ∈ resourceLimitProtectedUnits) :
    isProtectedUnit (bareUnitName name) = false ↔
      (inst = "" ∧ suffix ∈ unstrippedTypes) ∧ ¬OfFamily unit := by
  obtain ⟨hdot, hat⟩ := listed_plain (List.mem_append_right _ hunit)
  rw [← Bool.not_eq_true, isProtectedUnit_iff, bareUnitName_of_spells h hdot hat]
  by_cases hbare : inst = "" ∧ suffix ∈ unstrippedTypes
  · have hplain : ∀ e ∈ resourceLimitProtectedUnits, '.' ∉ e.toList := fun e he =>
      (listed_plain (List.mem_append_right _ he)).1
    have hfamily : OfFamily (unit ++ suffix) ↔ OfFamily unit := by
      refine exists_congr fun family => and_congr_right fun hfamily => ?_
      rw [startsWith_unit hfamily hbare.2]
    rw [if_pos hbare, and_iff_right hbare, or_iff_right (append_notMem hplain hbare.2), hfamily]
  · rw [if_neg hbare]
    exact ⟨fun hnot => absurd (.inl hunit) hnot, fun hboth => absurd hboth.1 hbare⟩

theorem ofFamily_spelled (h : Spells name unit inst suffix) (hunit : OfFamily unit) :
    isProtectedUnit (bareUnitName name) = true := by
  obtain ⟨family, hfamily, hstarts⟩ := hunit
  refine isProtectedUnit_iff.mpr (.inr ⟨family, hfamily, startsWith_bareUnitName hfamily ?_⟩)
  rw [startsWith, List.isPrefixOf_iff_prefix] at hstarts ⊢
  rw [h.text, String.append_assoc, String.toList_append]
  exact hstarts.trans (List.prefix_append _ _)

/-- A name with a type that is not stripped is neither a slice nor a scope. -/
theorem not_container (h : Spells name unit inst suffix) (hsuffix : suffix ∈ unstrippedTypes) :
    endsWith ".slice" (lower name) = false ∧ endsWith ".scope" (lower name) = false := by
  have hdotted : Dotted suffix.toList := by
    have hsub : ∀ s ∈ unstrippedTypes, s ∈ unitTypeSuffixes ++ systemdUnitTypes := by decide
    exact dotted_of_type (hsub suffix hsuffix)
  have hends : ∀ s ∈ [".slice", ".scope"], endsWith s (lower name) = false := by
    intro s hs
    have hknown : ∀ s ∈ [".slice", ".scope"], s ∈ unitTypeSuffixes ++ systemdUnitTypes ∧
        s ∉ unstrippedTypes := by decide
    rw [← Bool.not_eq_true, endsWith, List.isSuffixOf_iff_suffix]
    rintro ⟨x, hx⟩
    rw [h.text, String.toList_append] at hx
    -- Two types that end the same name are the same.
    obtain ⟨-, heq⟩ := append_dotted_inj (dotted_of_type (hknown s hs).1) hdotted hx
    exact (hknown s hs).2 (String.toList_inj.mp heq ▸ hsuffix)
  exact ⟨hends ".slice" (by decide), hends ".scope" (by decide)⟩

end Spelling

/-- A validator refuses the name. -/
def Refuses (validator : String → String → Except ExecutorError String) (name : String) : Prop :=
  ∀ param, validator name param = .error (.invalidParam param)

theorem refuses_checked {ok : String → Bool} {name : String} :
    Refuses (fun s param => checked (ok s) s param) name ↔ ok name = false := by
  cases hok : ok name with
  | false => simp [Refuses, checked, hok]
  | true => simp [Refuses, checked, hok]

/-- **The screens on spellings.** A spelling of a listed unit is refused exactly when it has an
instance or a type that is stripped, or the unit is of a protected family; every spelling of a
unit of a protected family is refused. -/
theorem screens_refuse_iff (name unit inst suffix : String) (hname : unitNameOk name = true)
    (h : Spells name unit inst suffix) :
    (unit ∈ rootShellUnits ++ powerStateUnits →
      (Refuses validatedActivatableUnit name ↔ ¬(inst = "" ∧ suffix ∈ unstrippedTypes))) ∧
    (unit ∈ resourceLimitProtectedUnits →
      (Refuses validatedStoppableUnit name ↔
        ¬(inst = "" ∧ suffix ∈ unstrippedTypes) ∨ OfFamily unit) ∧
      (Refuses validatedResourceLimitUnit name ↔
        ¬(inst = "" ∧ suffix ∈ unstrippedTypes) ∨ OfFamily unit)) ∧
    (OfFamily unit →
      Refuses validatedStoppableUnit name ∧ Refuses validatedResourceLimitUnit name) := by
  have hactivatable : Refuses validatedActivatableUnit name ↔ activatableUnitOk name = false :=
    refuses_checked
  have hstoppable : Refuses validatedStoppableUnit name ↔
      isProtectedUnit (bareUnitName name) = true := by
    refine refuses_checked.trans ?_
    rw [stoppableUnitOk, hname, Bool.true_and, Bool.not_eq_false']
  have hlimit : Refuses validatedResourceLimitUnit name ↔
      (endsWith ".slice" (lower name) = true ∨ endsWith ".scope" (lower name) = true) ∨
        isProtectedUnit (bareUnitName name) = true := by
    refine refuses_checked.trans ?_
    rw [resourceLimitUnitOk, hname, Bool.true_and, Bool.and_eq_false_iff, Bool.not_eq_false',
      Bool.not_eq_false', Bool.or_eq_true]
  refine ⟨fun hunit => ?_, fun hunit => ?_, fun hunit => ?_⟩
  · rw [hactivatable, ← Bool.not_eq_true, activatable_iff h hname hunit]
  · have hprotected : isProtectedUnit (bareUnitName name) = true ↔
        ¬(inst = "" ∧ suffix ∈ unstrippedTypes) ∨ OfFamily unit := by
      rw [← Bool.not_eq_false, isProtectedUnit_spelled h hunit, not_and_or, not_not]
    refine ⟨hstoppable.trans hprotected,
      hlimit.trans ⟨?_, fun hcond => .inr (hprotected.mpr hcond)⟩⟩
    rintro (hcontainer | hisProtected)
    · refine .inl fun hbare => ?_
      obtain ⟨hslice, hscope⟩ := not_container h hbare.2
      rw [hslice, hscope] at hcontainer
      rcases hcontainer with hcontainer | hcontainer <;> cases hcontainer
    · exact hprotected.mp hisProtected
  · have hisProtected := ofFamily_spelled h hunit
    exact ⟨hstoppable.mpr hisProtected, hlimit.mpr (.inr hisProtected)⟩

/-- A timer of an instance, in capitals, is still that unit. -/
theorem screens_refuse_iff_instance :
    unitNameOk "REBOOT@x.timer" = true ∧ Spells "REBOOT@x.timer" "reboot" "@x" ".timer" ∧
      Refuses validatedActivatableUnit "REBOOT@x.timer" := by
  have hname : unitNameOk "REBOOT@x.timer" = true := by decide
  have h : Spells "REBOOT@x.timer" "reboot" "@x" ".timer" :=
    ⟨by decide, .inr (by decide), .inr (by decide)⟩
  have hrefuses := (screens_refuse_iff _ _ _ _ hname h).1 (by decide)
  exact ⟨hname, h, hrefuses.mpr (by decide)⟩

/-- `reboot.timer` is a spelling of `reboot`, and may be activated. -/
theorem reboot_timer_activatable : ¬∀ name unit inst suffix : String, unitNameOk name = true →
    Spells name unit inst suffix → unit ∈ rootShellUnits ++ powerStateUnits →
      Refuses validatedActivatableUnit name := by
  intro h
  have hspells : Spells "reboot.timer" "reboot" "" ".timer" :=
    ⟨by decide, .inl rfl, .inr (by decide)⟩
  have hrefused := h "reboot.timer" "reboot" "" ".timer" (by decide) hspells (by decide) "unit"
  rw [validatedActivatableUnit_eq_ok.mpr ⟨by decide, rfl⟩] at hrefused
  cases hrefused

end Sysknife
