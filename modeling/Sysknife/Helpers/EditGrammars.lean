import Mathlib.Data.List.Chain
import Sysknife.Helpers.Grammars

/-!
# The grammars of the file-editing helpers

The daemon's checks against those of `mount-edit`, `sudoers-edit` and `log-edit`. Unlike the
copies in `action-steps`, some of these differ: the helper asks more of a device, of an account
in a sudoers rule, of a command and of a log path than the daemon does. For each of those the
statement says what more it asks, on texts the daemon lets through (`DeviceNamed`,
`PlainAccount`, …).
-/

namespace Sysknife

open Text
open ActionSteps (orRaise matchesAll orRaise_eq_ok)

/-! ### Devices -/

/-- What `mount-edit` asks of a device on top of the daemon's check: a node under `/dev/` has a
name, a share has a host and a path, an export has a host without `/` and `:` and no further
`:`. -/
def DeviceNamed (d : String) : Prop :=
  d ≠ "/dev/" ∧
    (∀ rest, stripStart "//" d = some rest →
      ∃ host share, splitOnce "/" rest = some (host, share) ∧ host ≠ "" ∧ share ≠ "") ∧
    ∀ host dir, splitOnce ":/" d = some (host, dir) →
      ':' ∉ host.toList ∧ '/' ∉ host.toList ∧ ':' ∉ dir.toList

namespace MountEdit

variable {d : String}

theorem notMem_of_class {extra : String} {l : List Char} {c : Char}
    (hall : ∀ x ∈ l, alnumOr extra x = true) (hc : alnumOr extra c = false) : c ∉ l := by
  intro hmem
  rw [hall c hmem] at hc
  cases hc

/-- The texts of the device pattern, one kind after the other. -/
theorem devicePattern_iff :
    matchesAll devicePattern d = true ↔
      (∃ r, d.toList = "/dev/".toList ++ r ∧ r ≠ [] ∧ ∀ c ∈ r, alnumOr "/_.-" c = true) ∨
      (∃ r, d.toList = "UUID=".toList ++ r ∧ 8 ≤ r.length ∧ ∀ c ∈ r, hexOrHyphen c = true) ∨
      (∃ r, d.toList = "LABEL=".toList ++ r ∧ r ≠ [] ∧ ∀ c ∈ r, alnumOr "_.:-" c = true) ∨
      (∃ h r, d.toList = "//".toList ++ (h ++ ("/".toList ++ r)) ∧ h ≠ [] ∧ r ≠ [] ∧
        (∀ c ∈ h, alnumOr "._-" c = true) ∧ ∀ c ∈ r, alnumOr "._/$-" c = true) ∨
      ∃ h r, d.toList = h ++ (":/".toList ++ r) ∧ h ≠ [] ∧ (∀ c ∈ h, alnumOr "._-" c = true) ∧
        ∀ c ∈ r, alnumOr "._/-" c = true := by
  have hleast : ∀ {p : Char → Bool} {l : List Char}, (Pattern.rep p 8 none).fullmatch l = true ↔
      8 ≤ l.length ∧ ∀ c ∈ l, p c = true := by
    intro p l
    simp [Pattern.fullmatch_rep, and_comm]
  rw [matchesAll, devicePattern]
  simp only [Pattern.fullmatch_alt, Pattern.fullmatch_lit_seq, Pattern.fullmatch_plus, hleast]
  refine or_congr_right (or_congr_right (or_congr_right (or_congr ?_ ?_)))
  · constructor
    · rintro ⟨cs, hd, hcs⟩
      obtain ⟨h, b, rfl, hh, hb⟩ := Pattern.fullmatch_seq.mp hcs
      obtain ⟨r, rfl, hr⟩ := Pattern.fullmatch_lit_seq.mp hb
      obtain ⟨hne, hh⟩ := Pattern.fullmatch_plus.mp hh
      obtain ⟨hrne, hr⟩ := Pattern.fullmatch_plus.mp hr
      exact ⟨h, r, hd, hne, hrne, hh, hr⟩
    · rintro ⟨h, r, hd, hne, hrne, hh, hr⟩
      refine ⟨_, hd, Pattern.fullmatch_seq.mpr
        ⟨h, _, rfl, Pattern.fullmatch_plus.mpr ⟨hne, hh⟩, ?_⟩⟩
      exact Pattern.fullmatch_lit_seq.mpr ⟨r, rfl, Pattern.fullmatch_plus.mpr ⟨hrne, hr⟩⟩
  · rw [Pattern.fullmatch_seq]
    constructor
    · rintro ⟨h, b, hd, hh, hb⟩
      obtain ⟨r, rfl, hr⟩ := Pattern.fullmatch_lit_seq.mp hb
      obtain ⟨hne, hh⟩ := Pattern.fullmatch_plus.mp hh
      exact ⟨h, r, hd, hne, hh, Pattern.fullmatch_star.mp hr⟩
    · rintro ⟨h, r, hd, hne, hh, hr⟩
      refine ⟨h, _, hd, Pattern.fullmatch_plus.mpr ⟨hne, hh⟩, ?_⟩
      exact Pattern.fullmatch_lit_seq.mpr ⟨r, rfl, Pattern.fullmatch_star.mpr hr⟩

/-- A device of another kind than the last two is only asked for a name. -/
theorem deviceNamed_of_none (hdev : d ≠ "/dev/") (hslashes : startsWith "//" d = false)
    (hcut : splitOnce ":/" d = none) : DeviceNamed d := by
  refine ⟨hdev, fun rest hrest => ?_, fun host dir hsplit => ?_⟩
  · rw [stripStart_eq_none hslashes] at hrest
    cases hrest
  · rw [hcut] at hsplit
    cases hsplit

theorem ne_dev_of_head {c : Char} {l : List Char} (hd : d.toList = c :: l) (hc : c ≠ '/') :
    d ≠ "/dev/" ∧ startsWith "//" d = false := by
  constructor
  · rintro rfl
    exact hc (List.head_eq_of_cons_eq hd).symm
  · rw [startsWith, hd]
    simp [List.isPrefixOf, Ne.symm hc]

theorem deviceNamed_of_matches (h : matchesAll devicePattern d = true) : DeviceNamed d := by
  rcases devicePattern_iff.mp h with ⟨r, hd, hne, hr⟩ | ⟨r, hd, hlen, hr⟩ | ⟨r, hd, hne, hr⟩ |
    ⟨h, r, hd, hne, hrne, hh, hr⟩ | ⟨h, r, hd, hne, hh, hr⟩
  · refine deviceNamed_of_none ?_ ?_ ?_
    · rintro rfl
      exact hne (by simpa using hd)
    · rw [startsWith, hd]
      rfl
    · refine splitOnce_none_of_notMem (c := ':') (by decide) ?_
      rw [hd, List.mem_append]
      rintro (hmem | hmem)
      · exact absurd hmem (by decide)
      · exact notMem_of_class hr (by decide) hmem
  · obtain ⟨hdev, hslashes⟩ := ne_dev_of_head (l := "UID=".toList ++ r) hd (by decide)
    refine deviceNamed_of_none hdev hslashes ?_
    refine splitOnce_none_of_notMem (c := ':') (by decide) ?_
    rw [hd, List.mem_append]
    rintro (hmem | hmem)
    · exact absurd hmem (by decide)
    · exact absurd (hr ':' hmem) (by decide)
  · obtain ⟨hdev, hslashes⟩ := ne_dev_of_head (l := "ABEL=".toList ++ r) hd (by decide)
    refine deviceNamed_of_none hdev hslashes ?_
    refine splitOnce_none_of_notMem (c := '/') (by decide) ?_
    rw [hd, List.mem_append]
    rintro (hmem | hmem)
    · exact absurd hmem (by decide)
    · exact notMem_of_class hr (by decide) hmem
  · refine ⟨?_, fun rest hrest => ?_, fun host dir hsplit => ?_⟩
    · rintro rfl
      have hsecond : some 'd' = some '/' := congrArg (fun l => l[1]?) hd
      exact absurd hsecond (by decide)
    · have hlist : rest.toList = h ++ ('/' :: [] ++ r) := by
        rw [stripStart_eq_some, hd, List.append_cancel_left_eq] at hrest
        exact hrest.symm
      refine ⟨String.ofList h, String.ofList r, splitOnce_of_notMem rfl hlist ?_, ?_, ?_⟩
      · exact notMem_of_class hh (by decide)
      · simpa using hne
      · simpa using hrne
    · have hcolon : ':' ∉ d.toList := by
        rw [hd]
        simp only [List.mem_append, not_or]
        exact ⟨by decide, notMem_of_class hh (by decide), by decide,
          notMem_of_class hr (by decide)⟩
      rw [splitOnce_none_of_notMem (c := ':') (by decide) hcolon] at hsplit
      cases hsplit
  · have hcut : splitOnce ":/" d = some (String.ofList h, String.ofList r) :=
      splitOnce_of_notMem (c := ':') (l := ['/']) rfl hd (notMem_of_class hh (by decide))
    obtain ⟨c, cs, rfl⟩ := List.exists_cons_of_ne_nil hne
    have hslash : c ≠ '/' := by
      rintro rfl
      exact notMem_of_class hh (by decide) List.mem_cons_self
    obtain ⟨hdev, hslashes⟩ := ne_dev_of_head hd hslash
    refine ⟨hdev, fun rest hrest => ?_, fun host dir hsplit => ?_⟩
    · rw [stripStart_eq_none hslashes] at hrest
      cases hrest
    · rw [hcut] at hsplit
      cases hsplit
      rw [String.toList_ofList, String.toList_ofList]
      exact ⟨notMem_of_class hh (by decide), notMem_of_class hh (by decide),
        notMem_of_class hr (by decide)⟩

/-- What stands before the first occurrence of a character does not have it. -/
theorem notMem_of_splitOnce {needle s a b : String} {c : Char} (hn : needle.toList = [c])
    (h : splitOnce needle s = some (a, b)) : c ∉ a.toList := by
  intro hmem
  obtain ⟨hs, hfirst⟩ := splitOnce_eq_some.mp h
  obtain ⟨x, y, hxy⟩ := List.append_of_mem hmem
  refine hfirst x.length ?_ ⟨y ++ (needle.toList ++ b.toList), ?_⟩
  · rw [hxy, List.length_append, List.length_cons]
    omega
  · rw [hs, hxy, List.append_assoc, List.drop_left, hn]
    rfl

theorem hexOrHyphen_of {c : Char} (h : (isHexDigit c || c == '-') = true) :
    hexOrHyphen c = true := by
  have hnat : c = Char.ofNat c.toNat := (Char.ofNat_toNat c).symm
  simp only [isHexDigit, Bool.or_eq_true, Bool.and_eq_true, decide_eq_true_eq, beq_iff_eq] at h
  rcases h with ((h | ⟨hlow, hhigh⟩) | ⟨hlow, hhigh⟩) | rfl
  · simp [hexOrHyphen, h]
  · have hlow : 97 ≤ c.toNat := hlow
    have hhigh : c.toNat ≤ 102 := hhigh
    obtain h | h | h | h | h | h : c.toNat = 97 ∨ c.toNat = 98 ∨ c.toNat = 99 ∨ c.toNat = 100 ∨
        c.toNat = 101 ∨ c.toNat = 102 := by omega
    all_goals
      rw [hnat, h]
      decide
  · have hlow : 65 ≤ c.toNat := hlow
    have hhigh : c.toNat ≤ 70 := hhigh
    obtain h | h | h | h | h | h : c.toNat = 65 ∨ c.toNat = 66 ∨ c.toNat = 67 ∨ c.toNat = 68 ∨
        c.toNat = 69 ∨ c.toNat = 70 := by omega
    all_goals
      rw [hnat, h]
      decide
  · decide

theorem ascii_hexOrHyphen : Ascii hexOrHyphen := by
  intro c hc
  have hlist : ∀ x ∈ "ABCDEFabcdef-".toList, (x.utf8Size == 1) = true :=
    List.all_eq_true.mp (by decide)
  simp only [hexOrHyphen, Bool.or_eq_true, List.contains_iff_mem] at hc
  rcases hc with hc | hc
  · exact utf8Size_of_isAlphanum (by simp [Char.isAlphanum, hc])
  · exact beq_iff_eq.mp (hlist c hc)

theorem matches_of_deviceNamed (hok : mountDeviceOk d = true) (h : DeviceNamed d) :
    matchesAll devicePattern d = true := by
  obtain ⟨hdev, hshare, hexport⟩ := h
  rw [mountDeviceOk] at hok
  simp only [Bool.and_eq_true, Bool.or_eq_true, Option.any_eq_true] at hok
  obtain ⟨-, hkind⟩ := hok
  rw [devicePattern_iff]
  rcases hkind with (((⟨r, hr, hall⟩ | ⟨r, hr, hlen, hall⟩) | ⟨r, hr, hne, hall⟩) | hcifs) | hnfs
  · refine .inl ⟨r.toList, stripStart_eq_some.mp hr, fun hnil => ?_, allChars_iff.mp hall⟩
    refine hdev (String.toList_inj.mp ?_)
    rw [stripStart_eq_some.mp hr, hnil, List.append_nil]
  · have hall := allChars_iff.mp hall
    refine .inr (.inl ⟨r.toList, stripStart_eq_some.mp hr, ?_, fun c hc => ?_⟩)
    · rw [decide_eq_true_eq, byteLen_of_ascii fun c hc =>
        ascii_hexOrHyphen c (hexOrHyphen_of (hall c hc))] at hlen
      exact hlen
    · exact hexOrHyphen_of (hall c hc)
  · refine .inr (.inr (.inl ⟨r.toList, stripStart_eq_some.mp hr, ?_, allChars_iff.mp hall⟩))
    rw [Bool.not_eq_true', ← Bool.not_eq_true, isEmpty_iff_toList] at hne
    exact hne
  · obtain ⟨⟨hslashes, -⟩, hall⟩ := hcifs
    obtain ⟨rest, hrest⟩ := startsWith_iff.mp hslashes
    have hstrip : stripStart "//" d = some (String.ofList rest) :=
      stripStart_eq_some.mpr (by simpa using hrest)
    obtain ⟨host, share, hsplit, hhost, hshare⟩ := hshare _ hstrip
    have hlist : rest = host.toList ++ ("/".toList ++ share.toList) := by
      have := (splitOnce_eq_some.mp hsplit).1
      rwa [String.toList_ofList (l := rest)] at this
    have hchars : ∀ c ∈ host.toList ++ share.toList, alnumOr "/._-" c = true := by
      intro c hc
      refine allChars_iff.mp hall c ?_
      rw [hrest, hlist]
      simp only [List.mem_append] at hc ⊢
      tauto
    refine .inr (.inr (.inr (.inl ⟨host.toList, share.toList, ?_, ?_, ?_, ?_, ?_⟩)))
    · rw [hrest, hlist]
    · simpa using hhost
    · simpa using hshare
    · intro c hc
      refine (alnumOr_iff_barred (e := "._-") (f := "/._-") (b := ['/']) (by simp; grind)
        (by decide) c).mpr ⟨hchars c (List.mem_append_left _ hc), ?_⟩
      rw [List.mem_singleton]
      rintro rfl
      exact notMem_of_splitOnce rfl hsplit hc
    · intro c hc
      exact alnumOr_mono (by decide) c (hchars c (List.mem_append_right _ hc))
  · cases hsplit : splitOnce ":/" d with
    | none => simp [hsplit] at hnfs
    | some p =>
      obtain ⟨host, dir⟩ := p
      simp only [hsplit, Bool.and_eq_true] at hnfs
      obtain ⟨⟨hhost, -⟩, hall⟩ := hnfs
      obtain ⟨hcolon, hslash, hdir⟩ := hexport host dir hsplit
      have hd := (splitOnce_eq_some.mp hsplit).1
      have hchars : ∀ c ∈ host.toList ++ dir.toList, alnumOr ":/._-" c = true := by
        intro c hc
        refine allChars_iff.mp hall c ?_
        rw [hd]
        simp only [List.mem_append] at hc ⊢
        tauto
      rw [Bool.not_eq_true', ← Bool.not_eq_true, isEmpty_iff_toList] at hhost
      refine .inr (.inr (.inr (.inr ⟨host.toList, dir.toList, hd, hhost, ?_, ?_⟩)))
      · intro c hc
        refine (alnumOr_iff_barred (e := "._-") (f := ":/._-") (b := [':', '/'])
          (by simp; grind) (by decide) c).mpr ⟨hchars c (List.mem_append_left _ hc), ?_⟩
        simp only [List.mem_cons, List.not_mem_nil, or_false]
        rintro (rfl | rfl)
        · exact hcolon hc
        · exact hslash hc
      · intro c hc
        refine (alnumOr_iff_barred (e := "._/-") (f := ":/._-") (b := [':'])
          (by simp; grind) (by decide) c).mpr ⟨hchars c (List.mem_append_right _ hc), ?_⟩
        rw [List.mem_singleton]
        rintro rfl
        exact hdir hc

end MountEdit

/-! ### Normalised paths -/

/-- The components of a path that mean anything. -/
def components (path : String) : List String :=
  (split '/' path).filter fun p => !p.isEmpty && p != "."

theorem foldl_normStep {n : ℕ} {l acc : List String} (h : ∀ p ∈ l, p ≠ "..") :
    l.foldl (normStep n) acc = (l.filter fun p => !p.isEmpty && p != ".").reverse ++ acc := by
  induction l generalizing acc with
  | nil => rfl
  | cons p l ih =>
    rw [List.foldl_cons, ih fun q hq => h q (List.mem_cons_of_mem p hq), List.filter_cons]
    have hp : p ≠ ".." := h p List.mem_cons_self
    by_cases hskip : p = "" ∨ p = "."
    · have hfalse : (!p.isEmpty && p != ".") = false := by
        rcases hskip with rfl | rfl <;> rfl
      rw [normStep, if_pos hskip, hfalse]
      rfl
    · have htrue : (!p.isEmpty && p != ".") = true := by
        rw [not_or] at hskip
        simpa [String.isEmpty_iff] using hskip
      rw [normStep, if_neg hskip, if_pos (.inl hp), htrue, if_pos rfl, List.reverse_cons,
        List.append_assoc, List.singleton_append]

theorem ne_dots_of_mem_split {s p : String} (hdots : contains ".." s = false)
    (hp : p ∈ split '/' s) : p ≠ ".." := by
  rintro rfl
  have := infix_of_mem_split hp
  rw [← Bool.not_eq_true, contains, decide_eq_true_eq] at hdots
  exact hdots this

/-- Without `..` a path is normalised by dropping the empty components and the dots. -/
theorem normpath_eq {s : String} (hroot : startsWith "/" s = true)
    (hdots : contains ".." s = false) :
    normpath s = String.ofList (List.replicate (initialSlashes s) '/') ++
      String.intercalate "/" (components s) := by
  have hslashes : initialSlashes s ≠ 0 := by
    unfold initialSlashes
    rw [hroot]
    split <;> decide
  unfold normpath
  rw [foldl_normStep fun p hp => ne_dots_of_mem_split hdots hp, List.append_nil,
    List.reverse_reverse]
  refine if_neg fun hempty => ?_
  rw [String.isEmpty_iff, ← String.toList_eq_nil_iff, String.toList_append,
    String.toList_ofList, List.append_eq_nil_iff, List.replicate_eq_nil_iff] at hempty
  exact hslashes hempty.1

/-- No two dots in a row. -/
def Undotted (l : List Char) : Prop := l.IsChain fun x y => ¬(x = '.' ∧ y = '.')

theorem undotted_iff {s : String} : Undotted s.toList ↔ contains ".." s = false := by
  rw [← Bool.not_eq_true, contains, decide_eq_true_eq, Undotted,
    List.isChain_iff_forall_rel_of_append_cons_cons]
  constructor
  · rintro h ⟨a, b, hab⟩
    refine @h '.' '.' a b ?_ ⟨rfl, rfl⟩
    rw [← hab, List.append_assoc]
    rfl
  · rintro h a b l₁ l₂ hs ⟨rfl, rfl⟩
    refine h ⟨l₁, l₂, ?_⟩
    rw [hs, List.append_assoc]
    rfl

theorem undotted_join {ls : List (List Char)} (h : ∀ l ∈ ls, Undotted l) :
    Undotted (['/'].intercalate ls) := by
  induction ls with
  | nil => exact List.isChain_nil
  | cons a ls ih =>
    cases ls with
    | nil =>
      rw [List.intercalate_singleton]
      exact h a List.mem_cons_self
    | cons b ls =>
      have ha := h a List.mem_cons_self
      have hrest := ih fun l hl => h l (List.mem_cons_of_mem a hl)
      rw [List.intercalate_cons_cons, List.append_assoc]
      refine List.isChain_append.mpr ⟨ha, List.isChain_append.mpr ⟨?_, hrest, ?_⟩, ?_⟩
      · exact List.isChain_singleton '/'
      · rintro x hx y - ⟨rfl, -⟩
        simp at hx
      · rintro x - y hy ⟨-, rfl⟩
        simp at hy

/-! ### Mountpoints and swap files -/

namespace MountEdit

variable {s : String}

theorem matchesAll_mountpoint :
    matchesAll mountpointPattern s = true ↔
      startsWith "/" s = true ∧ allChars (alnumOr "/_.-") s = true := by
  rw [matchesAll, mountpointPattern, Pattern.fullmatch_lit_seq, startsWith_iff, allChars_iff]
  constructor
  · rintro ⟨cs, hs, hcs⟩
    refine ⟨⟨cs, hs⟩, ?_⟩
    rw [hs]
    intro c hc
    rcases List.mem_append.mp hc with hc | hc
    · rw [List.mem_singleton.mp hc]
      decide
    · exact Pattern.fullmatch_star.mp hcs c hc
  · rintro ⟨⟨cs, hs⟩, hall⟩
    refine ⟨cs, hs, Pattern.fullmatch_star.mpr fun c hc => hall c ?_⟩
    rw [hs]
    exact List.mem_append_right _ hc

theorem ne_empty_of_startsWith (h : startsWith "/" s = true) : (s != "") = true := by
  rw [bne_iff_ne]
  rintro rfl
  exact absurd h (by decide)

theorem validMountpoint_of {maxLen : ℕ} (h : absolutePathOk maxLen s = true) :
    validMountpoint s = !criticalMountpoints.contains s := by
  simp only [absolutePathOk, Bool.and_eq_true, Bool.not_eq_true'] at h
  obtain ⟨⟨⟨hroot, -⟩, hdots⟩, hall⟩ := h
  rw [validMountpoint, matchesAll_mountpoint.mpr ⟨hroot, hall⟩, hdots, ne_empty_of_startsWith hroot]
  simp

theorem validSwapPath_of {maxLen : ℕ} (h : absolutePathOk maxLen s = true) :
    validSwapPath s = true := by
  simp only [absolutePathOk, Bool.and_eq_true, Bool.not_eq_true'] at h
  obtain ⟨⟨⟨hroot, -⟩, hdots⟩, hall⟩ := h
  simp [validSwapPath, matchesAll_mountpoint.mpr ⟨hroot, hall⟩, hdots, hroot]

/-- A normalised mountpoint is a mountpoint, unless it is a critical one. -/
theorem validMountpoint_normpath {maxLen : ℕ} (h : absolutePathOk maxLen s = true) :
    validMountpoint (normpath s) = !criticalMountpoints.contains (normpath s) := by
  simp only [absolutePathOk, Bool.and_eq_true, Bool.not_eq_true'] at h
  obtain ⟨⟨⟨hroot, -⟩, hdots⟩, hall⟩ := h
  have hnorm : (normpath s).toList = List.replicate (initialSlashes s) '/' ++
      ['/'].intercalate ((components s).map String.toList) := by
    rw [normpath_eq hroot hdots, String.toList_append, String.toList_ofList,
      String.toList_intercalate]
    rfl
  have hcomponents : ∀ p ∈ components s, p.toList <:+: s.toList := fun p hp =>
    infix_of_mem_split (List.mem_of_mem_filter hp)
  have hslashes : ∃ n, List.replicate (initialSlashes s) '/' = '/' :: List.replicate n '/' := by
    have hpos : initialSlashes s ≠ 0 := by
      unfold initialSlashes
      rw [hroot]
      split <;> decide
    obtain ⟨n, hn⟩ := Nat.exists_eq_succ_of_ne_zero hpos
    exact ⟨n, by rw [hn, List.replicate_succ]⟩
  obtain ⟨n, hslashes⟩ := hslashes
  have hroot' : startsWith "/" (normpath s) = true := by
    rw [startsWith_iff, hnorm, hslashes]
    exact ⟨_, rfl⟩
  have hall' : allChars (alnumOr "/_.-") (normpath s) = true := by
    rw [allChars_iff, hnorm]
    intro c hc
    rcases List.mem_append.mp hc with hc | hc
    · rw [List.eq_of_mem_replicate hc]
      decide
    · rcases mem_intercalate hc with hc | ⟨l, hl, hc⟩
      · rw [List.mem_singleton.mp hc]
        decide
      · obtain ⟨p, hp, rfl⟩ := List.mem_map.mp hl
        exact allChars_iff.mp hall c ((hcomponents p hp).subset hc)
  have hdots' : contains ".." (normpath s) = false := by
    have hsplit := undotted_iff.mpr hdots
    rw [← undotted_iff, hnorm]
    refine List.isChain_append.mpr ⟨?_, undotted_join ?_, ?_⟩
    · refine (List.pairwise_replicate.mpr (.inr ?_)).isChain
      rintro ⟨h, -⟩
      exact absurd h (by decide)
    · intro l hl
      obtain ⟨p, hp, rfl⟩ := List.mem_map.mp hl
      exact List.IsChain.infix hsplit (hcomponents p hp)
    · rintro x hx y - ⟨rfl, -⟩
      exact absurd (List.eq_of_mem_replicate (List.mem_of_getLast? hx)) (by decide)
  rw [validMountpoint, matchesAll_mountpoint.mpr ⟨hroot', hall'⟩, hdots',
    ne_empty_of_startsWith hroot']
  simp

/-- The host resolves a mountpoint to its own normalised spelling, which is not critical. -/
theorem mountpointSafe_eq_ok {maxLen : ℕ} {paths : Paths} (h : absolutePathOk maxLen s = true) :
    mountpointSafe paths s = .ok () ↔ paths.realpath s = normpath s ∧ paths.islink s = false ∧
      normpath s ∉ criticalMountpoints := by
  rw [mountpointSafe, ite_error_eq_ok_iff, orRaise_eq_ok]
  simp only [Bool.not_or, Bool.and_eq_true, Bool.not_eq_true', bne_eq_false_iff_eq, and_true,
    Bool.not_eq_false]
  constructor
  · rintro ⟨hvalid, hlink, hreal⟩
    rw [hreal, validMountpoint_normpath h] at hvalid
    exact ⟨hreal, hlink, by simpa using hvalid⟩
  · rintro ⟨hreal, hlink, hcritical⟩
    rw [hreal, validMountpoint_normpath h]
    exact ⟨by simpa using hcritical, hlink, rfl⟩

theorem swapPathSafe_eq_ok {paths : Paths} {u : Unit} :
    swapPathSafe paths s = .ok u ↔ paths.realpath s = normpath s := by
  rw [swapPathSafe, orRaise_eq_ok]
  simp

/-! ### Mount options -/

/-- The options a mount is made with are the requested ones and at most two more. -/
theorem hardenedMountOptions_eq (requested : String) :
    ∃ extra : List String, (∀ o ∈ extra, o ∈ ["nosuid", "nodev"]) ∧
      (∃ o ∈ commaPieces requested ++ extra, lower o = "nosuid") ∧
        hardenedMountOptions requested =
          String.intercalate "," (commaPieces requested ++ extra) := by
  have hfold : ∀ (out : List String) (required : String), ∃ more : List String,
      (∀ o ∈ more, o = required) ∧ (∃ o ∈ out ++ more, lower o = required ∨ o = required) ∧
        (if out.any fun o => lower o == required then out else out ++ [required]) =
          out ++ more := by
    intro out required
    by_cases h : (out.any fun o => lower o == required) = true
    · obtain ⟨o, ho, hlower⟩ := List.any_eq_true.mp h
      refine ⟨[], by simp, ⟨o, by simpa using ho, .inl (by simpa using hlower)⟩, ?_⟩
      rw [if_pos h, List.append_nil]
    · exact ⟨[required], by simp, ⟨required, by simp, .inr rfl⟩, by rw [if_neg h]⟩
  obtain ⟨first, hfirst, ⟨o, ho, hlower⟩, heq⟩ := hfold (commaPieces requested) "nosuid"
  obtain ⟨second, hsecond, -, heq'⟩ := hfold (commaPieces requested ++ first) "nodev"
  refine ⟨first ++ second, ?_, ⟨o, ?_, ?_⟩, ?_⟩
  · intro o ho
    rcases List.mem_append.mp ho with ho | ho
    · rw [hfirst o ho]
      decide
    · rw [hsecond o ho]
      decide
  · rw [← List.append_assoc]
    exact List.mem_append_left _ ho
  · rcases hlower with h | rfl
    · exact h
    · decide
  · rw [← List.append_assoc, ← heq', ← heq]
    rfl

/-- What each of the options a mount is made with is like. -/
theorem option_spec {requested : String} {extra : List String}
    (hok : mountOptionsOk requested = true) (hextra : ∀ o ∈ extra, o ∈ ["nosuid", "nodev"]) :
    ∀ o ∈ commaPieces requested ++ extra, o ≠ "" ∧ ',' ∉ o.toList ∧
      (∀ c ∈ o.toList, alnumOr "=,._:@/+-" c = true) ∧
        denyMountOptions.contains (lower o) = false := by
  simp only [mountOptionsOk, Bool.and_eq_true, Bool.not_eq_true'] at hok
  obtain ⟨⟨-, hall⟩, hdeny⟩ := hok
  intro o ho
  rcases List.mem_append.mp ho with ho | ho
  · rw [commaPieces, List.mem_filter] at ho
    obtain ⟨ho, hne⟩ := ho
    refine ⟨by simpa using hne, separator_notMem_of_mem_split ho, fun c hc => ?_, ?_⟩
    · exact allChars_iff.mp hall c ((infix_of_mem_split ho).subset hc)
    · have := List.any_eq_false.mp hdeny o ho
      rwa [Bool.not_eq_true] at this
  · have ho := hextra o ho
    simp only [List.mem_cons, List.not_mem_nil, or_false] at ho
    rcases ho with rfl | rfl
    · exact ⟨by decide, by decide, List.all_eq_true.mp (by decide), by decide⟩
    · exact ⟨by decide, by decide, List.all_eq_true.mp (by decide), by decide⟩

section Options

variable {requested : String} (hok : mountOptionsOk requested = true)
include hok

theorem matchesAll_hardened :
    matchesAll optionsPattern (hardenedMountOptions requested) = true := by
  obtain ⟨extra, hextra, -, heq⟩ := hardenedMountOptions_eq requested
  rw [matchesAll, optionsPattern, Pattern.fullmatch_star, heq, String.toList_intercalate]
  intro c hc
  rcases mem_intercalate hc with hc | ⟨l, hl, hc⟩
  · rw [List.mem_singleton.mp hc]
    decide
  · obtain ⟨o, ho, rfl⟩ := List.mem_map.mp hl
    exact (option_spec hok hextra o ho).2.2.1 c hc

theorem denied_hardened :
    ((split ',' (hardenedMountOptions requested)).any fun opt =>
      denyMountOptions.contains (lower opt)) = false := by
  obtain ⟨extra, hextra, ⟨o, ho, -⟩, heq⟩ := hardenedMountOptions_eq requested
  have hspec := option_spec hok hextra
  rw [heq, split_intercalate rfl (List.ne_nil_of_mem ho) fun p hp => (hspec p hp).2.1,
    List.any_eq_false]
  intro p hp
  rw [(hspec p hp).2.2.2]
  decide

/-- There is a letter in them, so they are no number and not empty. -/
theorem letter_hardened : ∃ c ∈ (hardenedMountOptions requested).toList, c.isAlpha = true := by
  obtain ⟨extra, hextra, ⟨o, ho, hlower⟩, heq⟩ := hardenedMountOptions_eq requested
  have hne : o.toList ≠ [] := by
    have := (option_spec hok hextra o ho).1
    simpa using this
  obtain ⟨c, cs, hcs⟩ := List.exists_cons_of_ne_nil hne
  have hc : c.toLower = 'n' := by
    have hlist : (lower o).toList = "nosuid".toList := by rw [hlower]
    rw [lower, String.toList_ofList, hcs, List.map_cons] at hlist
    exact List.head_eq_of_cons_eq hlist
  refine ⟨c, ?_, ?_⟩
  · rw [heq, String.toList_intercalate]
    refine (infix_intercalate (List.mem_map_of_mem ho)).subset ?_
    rw [hcs]
    exact List.mem_cons_self
  · by_cases hupper : c.val ≥ 'A'.val ∧ c.val ≤ 'Z'.val
    · simp only [isAlpha_eq, isUpper_eq, Bool.or_eq_true, decide_eq_true_eq]
      exact .inl hupper
    · have hsame : c.toLower = c := dif_neg hupper
      rw [← hsame, hc]
      decide

theorem startsWith_hardened :
    startsWith "-" (hardenedMountOptions requested) = true ↔
      ∃ p, (commaPieces requested).head? = some p ∧ startsWith "-" p = true := by
  obtain ⟨extra, hextra, ⟨o, ho, -⟩, heq⟩ := hardenedMountOptions_eq requested
  have hspec := option_spec hok hextra
  obtain ⟨p, ps, hps⟩ := List.exists_cons_of_ne_nil (List.ne_nil_of_mem ho)
  have hhead : (hardenedMountOptions requested).toList.head? = p.toList.head? := by
    have hp : p.toList ≠ [] := by
      have := (hspec p (by simp [hps])).1
      simpa using this
    rw [heq, hps, String.toList_intercalate, List.map_cons]
    cases ps with
    | nil => rw [List.map_nil, List.intercalate_singleton]
    | cons q qs =>
      rw [List.map_cons, List.intercalate_cons_cons, List.append_assoc,
        List.head?_append_of_ne_nil _ hp]
  rw [startsWith_char (c := '-') rfl, hhead, ← startsWith_char (n := "-") (c := '-') rfl]
  cases hpieces : commaPieces requested with
  | nil =>
    have hp : p ∈ ["nosuid", "nodev"] := hextra p (by
      rw [hpieces, List.nil_append] at hps
      simp [hps])
    have hno : startsWith "-" p = false := by
      simp only [List.mem_cons, List.not_mem_nil, or_false] at hp
      rcases hp with rfl | rfl <;> decide
    simp [hno]
  | cons q qs =>
    rw [hpieces, List.cons_append, List.cons.injEq] at hps
    simp [hps.1]

end Options

end MountEdit

/-! ### Names, accounts and commands of a sudoers rule -/

theorem lowerAlnumOr_iff {extra : String} {c : Char} :
    lowerAlnumOr extra c = true ↔
      c.isLower = true ∨ c.isDigit = true ∨ c ∈ extra.toList := by
  simp [lowerAlnumOr, or_assoc]

theorem ascii_lowerAlnumOr {extra : String}
    (h : (extra.toList.all fun c => c.utf8Size == 1) = true) :
    Ascii (lowerAlnumOr extra) := by
  intro c hc
  rcases lowerAlnumOr_iff.mp hc with hc | hc | hc
  · exact utf8Size_of_isAlphanum (by simp [Char.isAlphanum, isAlpha_eq, hc])
  · exact utf8Size_of_isAlphanum (by simp [Char.isAlphanum, hc])
  · exact beq_iff_eq.mp (List.all_eq_true.mp h c hc)

theorem namePattern_of {s : String} (h : sudoersNameOk s = true) :
    matchesAll namePattern s = true := by
  simp only [sudoersNameOk, Bool.and_eq_true, decide_eq_true_eq] at h
  obtain ⟨⟨⟨-, hlen⟩, hfirst⟩, hall⟩ := h
  have hclass : (lowerAlnumOr "" : Char → Bool) = fun c => c.isLower || c.isDigit := by
    funext c
    rw [Bool.eq_iff_iff, lowerAlnumOr_iff]
    simp
  refine (matchesAll_one_rep (ascii_lowerAlnumOr (by decide)) fun c hc => ?_).mpr
    ⟨hclass ▸ hfirst, hlen, hall⟩
  rw [lowerAlnumOr_iff] at hc ⊢
  tauto

/-- What `sudoers-edit` asks of an account on top of the daemon's check: no capital letter, no
dot and no digit in front. -/
def PlainAccount (u : String) : Prop :=
  (∀ c ∈ u.toList, c.isUpper = false ∧ c ≠ '.') ∧ ∀ c ∈ u.toList.head?, c.isDigit = false

namespace SudoersEdit

/-- The characters of an account the daemon takes, less those the helper refuses. -/
theorem lowerAlnumOr_of {c : Char} (h : alnumOr "._-" c = true) (hupper : c.isUpper = false)
    (hdot : c ≠ '.') : lowerAlnumOr "_-" c = true := by
  rw [lowerAlnumOr_iff]
  rcases alnumOr_iff.mp h with h | h
  · simp only [Char.isAlphanum, isAlpha_eq, hupper, Bool.false_or, Bool.or_eq_true] at h
    tauto
  · simp only [String.reduceToList, List.mem_cons] at h ⊢
    tauto

theorem not_isUpper_of_lowerAlnumOr {c : Char} (h : lowerAlnumOr "_-" c = true) :
    c.isUpper = false ∧ c ≠ '.' := by
  constructor
  · rcases lowerAlnumOr_iff.mp h with h | h | h
    · have ha : 'a'.val.toNat = 97 := rfl
      have hZ : 'Z'.val.toNat = 90 := rfl
      simp only [isLower_eq, isUpper_eq, Bool.and_eq_true, decide_eq_true_eq,
        decide_eq_false_iff_not, UInt32.le_iff_toNat_le, ge_iff_le] at h ⊢
      omega
    · have := not_isAlpha_of_isDigit h
      simp only [isAlpha_eq, Bool.or_eq_true, not_or, Bool.not_eq_true] at this
      exact this.1
    · have hlist : ∀ x ∈ "_-".toList, (!x.isUpper) = true := List.all_eq_true.mp (by decide)
      simpa using hlist c h
  · rintro rfl
    exact absurd h (by decide)

theorem matchesAll_ident {u : String} (hok : usernameOk u = true) :
    matchesAll identPattern u = true ↔ PlainAccount u := by
  simp only [usernameOk, Bool.and_eq_true, Bool.not_eq_true', allChars_iff, ← Bool.not_eq_true,
    isEmpty_iff_toList, startsWith_char (n := "-") (c := '-') rfl] at hok
  obtain ⟨⟨⟨⟨⟨hne, -⟩, hhyphen⟩, -⟩, -⟩, hall⟩ := hok
  rw [matchesAll, identPattern, Pattern.fullmatch_one_seq]
  constructor
  · rintro ⟨c, cs, hu, hc, hcs⟩
    obtain ⟨a, b, rfl, ha, hb⟩ := Pattern.fullmatch_seq.mp hcs
    -- the daemon lets no `$` through
    have hb : b = [] := by
      rcases Pattern.fullmatch_opt.mp hb with hb | hb
      · exact hb
      · have hdollar : '$' ∈ u.toList := by
          rw [hu, Pattern.fullmatch_lit.mp hb]
          simp
        exact absurd (hall '$' hdollar) (by decide)
    have hclass : lowerAlnumOr "_-" c = true := by
      rw [lowerAlnumOr_iff]
      simp only [Bool.or_eq_true, beq_iff_eq] at hc
      rcases hc with hc | rfl
      · exact .inl hc
      · exact .inr (.inr (by decide))
    rw [PlainAccount, hu, hb, List.append_nil]
    constructor
    · intro x hx
      rcases List.mem_cons.mp hx with rfl | hx
      · exact not_isUpper_of_lowerAlnumOr hclass
      · exact not_isUpper_of_lowerAlnumOr (Pattern.fullmatch_star.mp ha x hx)
    · intro x hx
      rw [List.head?_cons, Option.mem_some_iff] at hx
      subst hx
      rw [← Bool.not_eq_true]
      intro hdigit
      have halpha := not_isAlpha_of_isDigit hdigit
      simp only [Bool.or_eq_true, beq_iff_eq] at hc
      rcases hc with hc | rfl
      · exact halpha (by simp [isAlpha_eq, hc])
      · exact absurd hdigit (by decide)
  · rintro ⟨hchars, hhead⟩
    obtain ⟨c, cs, hu⟩ := List.exists_cons_of_ne_nil hne
    have hclass : ∀ x ∈ u.toList, lowerAlnumOr "_-" x = true := fun x hx =>
      lowerAlnumOr_of (hall x hx) (hchars x hx).1 (hchars x hx).2
    have hc : lowerAlnumOr "_-" c = true := hclass c (by simp [hu])
    refine ⟨c, cs, hu, ?_, Pattern.fullmatch_seq.mpr ⟨cs, [], by simp, ?_, rfl⟩⟩
    · have hdigit : c.isDigit = false := hhead c (by simp [hu])
      have hfirst : c ≠ '-' := by
        rintro rfl
        exact hhyphen (by simp [hu])
      rw [lowerAlnumOr_iff, hdigit] at hc
      simp only [String.reduceToList, List.mem_cons, List.not_mem_nil] at hc
      simp only [Bool.or_eq_true, beq_iff_eq]
      tauto
    · refine Pattern.fullmatch_star.mpr fun x hx => hclass x ?_
      rw [hu]
      exact List.mem_cons_of_mem c hx

/-- An account in a rule. -/
theorem validatedIdent_eq_ok {u what t : String} (hok : usernameOk u = true) (hall : u ≠ "ALL") :
    validatedIdent u what = .ok t ↔ PlainAccount u ∧ t = u := by
  have hlen : u.length ≤ 32 := by
    simp only [usernameOk, Bool.and_eq_true, decide_eq_true_eq] at hok
    have hbytes : byteLen u ≤ 32 := hok.1.1.1.1.2
    rw [← String.length_toList]
    exact (length_le_byteLen u).trans hbytes
  rw [validatedIdent, if_neg hall, orRaise_eq_ok]
  refine and_congr_left' ?_
  rw [← matchesAll_ident hok]
  simp [hlen]

theorem not_plainAccount_all : ¬PlainAccount "ALL" := fun h =>
  absurd (h.1 'A' (by decide)).1 (by decide)

theorem matchesAll_cmd {c : String} (hok : sudoCommandOk c = true) :
    (matchesAll cmdPattern c && !contains ".." c && !contains "*" c) = true ↔ c ≠ "/" := by
  simp only [sudoCommandOk, Bool.and_eq_true, Bool.not_eq_true'] at hok
  obtain ⟨⟨⟨hroot, hdots⟩, hstar⟩, hall⟩ := hok
  obtain ⟨rest, hrest⟩ := startsWith_iff.mp hroot
  rw [hdots, hstar, Bool.not_false, Bool.and_true, Bool.and_true, matchesAll, cmdPattern,
    Pattern.fullmatch_lit_seq]
  constructor
  · rintro ⟨cs, hcs, hmatch⟩ rfl
    have hnil : cs = [] := by simpa using hcs
    exact (Pattern.fullmatch_plus.mp hmatch).1 hnil
  · intro hne
    refine ⟨rest, hrest, Pattern.fullmatch_plus.mpr ⟨fun hnil => hne ?_, fun x hx => ?_⟩⟩
    · rw [hnil, List.append_nil] at hrest
      exact String.toList_inj.mp hrest
    · refine allChars_iff.mp hall x ?_
      rw [hrest]
      exact List.mem_append_right _ hx

/-- The commands of a rule: the helper wants a name after the slash. -/
theorem commandEntries_ok {commands : String} (hok : sudoCommandsOk commands = true)
    (hall : commands ≠ "ALL") :
    (∃ cmds, commandEntries commands = .ok cmds) ↔ "/" ∉ commaPieces commands := by
  simp only [sudoCommandsOk, Bool.or_eq_true, beq_iff_eq, hall, false_or, Bool.and_eq_true,
    Bool.not_eq_true', List.all_eq_true] at hok
  obtain ⟨⟨-, hpieces⟩, hne⟩ := hok
  have hentries : commandEntries commands =
      orRaise ((commaPieces commands).all fun c =>
        matchesAll cmdPattern c && !contains ".." c && !contains "*" c)
        "invalid command path (absolute, no wildcards, no ..)" (commaPieces commands) := by
    rw [commandEntries]
    exact if_neg (by rw [← Bool.not_eq_true] at hne; exact hne)
  rw [hentries]
  simp only [orRaise_eq_ok, exists_and_left, exists_eq, and_true,
    List.all_eq_true]
  constructor
  · intro h hmem
    exact (matchesAll_cmd (hpieces "/" hmem)).mp (h "/" hmem) rfl
  · intro h c hc
    exact (matchesAll_cmd (hpieces c hc)).mpr fun heq => h (heq ▸ hc)

theorem shellEquivalentCommand_eq (commands : String) :
    shellEquivalentCommand commands = shellEquivalentSudoCommand commands := by
  have hlist : shellEquivalentCommands = Sysknife.shellEquivalentCommands := rfl
  have hname : ∀ base, unversionedCommandName base = Sysknife.unversionedCommandName base :=
    fun _ => rfl
  unfold shellEquivalentCommand shellEquivalentSudoCommand
  by_cases hall : commands = "ALL"
  · rw [if_pos hall, if_pos (beq_iff_eq.mpr hall)]
  · rw [if_neg hall, if_neg fun h => hall (beq_iff_eq.mp h), hlist]
    simp only [hname, commaPieces, lastComponent]

end SudoersEdit

/-! ### Logs -/

/-- What `log-edit` asks of a path on top of the daemon's check: it names something under the
log root and not the root itself. -/
def NamesLog (path : String) : Prop :=
  ∃ rest, stripStart "/var/log/" path = some rest ∧ components rest ≠ []

namespace LogEdit

variable {path : String}

theorem components_of_log {rest : String} (h : stripStart "/var/log/" path = some rest) :
    components path = ["var", "log"] ++ components rest := by
  have hlist : path.toList = "/var/log".toList ++ '/' :: rest.toList := stripStart_eq_some.mp h
  have hroot : ("/var/log".toList.splitOn '/').map String.ofList = ["", "var", "log"] := by
    rfl
  have hsplit : split '/' path = ["", "var", "log"] ++ split '/' rest := by
    rw [split_eq, split_eq, hlist, List.splitOn_append_cons_self, List.map_append, hroot]
  rw [components, hsplit, List.filter_append]
  rfl

/-- A path under the log root, normalised. -/
theorem normpath_of_log {rest : String} (h : stripStart "/var/log/" path = some rest)
    (hdots : contains ".." path = false) :
    normpath path = if components rest = [] then "/var/log"
      else "/var/log/" ++ String.intercalate "/" (components rest) := by
  have hlist := stripStart_eq_some.mp h
  have hroot : startsWith "/" path = true := by
    rw [startsWith, hlist]
    rfl
  have hslashes : initialSlashes path = 1 := by
    have htwo : startsWith "//" path = false := by
      rw [startsWith, hlist]
      rfl
    rw [initialSlashes, htwo, hroot]
    rfl
  rw [normpath_eq hroot hdots, hslashes, components_of_log h]
  by_cases hnil : components rest = []
  · rw [if_pos hnil, hnil]
    rfl
  · rw [if_neg hnil, String.intercalate_append_of_ne_nil (by simp) hnil, ← String.append_assoc,
      ← String.append_assoc]
    congr 1

theorem validLogGlob_iff (hok : logPathOk path = true) :
    validLogGlob path = true ↔ NamesLog path := by
  simp only [logPathOk, Bool.and_eq_true, Bool.not_eq_true', decide_eq_true_eq] at hok
  obtain ⟨⟨⟨hroot, hlen⟩, hdots⟩, hall⟩ := hok
  obtain ⟨rest, hrest⟩ := startsWith_iff.mp hroot
  have hstrip : stripStart "/var/log/" path = some (String.ofList rest) :=
    stripStart_eq_some.mpr (by rw [String.toList_ofList (l := rest)]; exact hrest)
  have hmatch : matchesAll pathPattern path = true := by
    have hcons : path.toList = "/".toList ++ ("var/log/".toList ++ rest) := hrest
    refine Pattern.fullmatch_lit_seq.mpr ⟨_, hcons, Pattern.fullmatch_rep.mpr ⟨?_, ?_, ?_⟩⟩
    · intro c hc
      refine allChars_iff.mp hall c ?_
      rw [hcons]
      exact List.mem_append_right _ hc
    · rw [List.length_append]
      exact Nat.le_add_right_of_le (by decide)
    · intro n hn
      have hbytes : path.toList.length ≤ 255 := (length_le_byteLen path).trans hlen
      rw [hcons, List.length_append] at hbytes
      rw [Option.mem_some_iff] at hn
      omega
  have htwo : startsWith "//" path = false := by
    rw [startsWith, hrest]
    rfl
  have hnames : NamesLog path ↔ components (String.ofList rest) ≠ [] := by
    rw [NamesLog, hstrip]
    simp
  rw [hnames, validLogGlob, hmatch, hdots, htwo, normpath_of_log hstrip hdots]
  by_cases hnil : components (String.ofList rest) = []
  · rw [if_pos hnil]
    simp only [hnil]
    decide
  · have hstart : startsWith logRoot
        ("/var/log/" ++ String.intercalate "/" (components (String.ofList rest))) = true :=
      startsWith_iff.mpr ⟨_, String.toList_append⟩
    have hne : "/var/log/" ++ String.intercalate "/" (components (String.ofList rest)) ≠
        "/var/log" := by
      intro heq
      have hlen := congrArg String.length heq
      rw [String.length_append] at hlen
      have hroot : "/var/log/".length = 9 := by decide
      have hdir : "/var/log".length = 8 := by decide
      omega
    rw [if_neg hnil]
    simp [hstart, hne, hnil]

/-- Both sides look for a bare wildcard in the same way. -/
theorem sweepsLogEvidence_eq (path : String) :
    sweepsLogEvidence path = logGlobSweepsEvidence path := by
  have hparts : ((split '/' path).filter fun p => !(["", "."].contains p)) =
      (split '/' path).filter fun p => !p.isEmpty && p != "." := by
    refine List.filter_congr fun p _ => ?_
    rw [Bool.eq_iff_iff]
    simp
  have hdirs : logEvidenceDirs = Sysknife.logEvidenceDirs := rfl
  unfold sweepsLogEvidence logGlobSweepsEvidence
  rw [hparts, hdirs]
  generalize ((split '/' path).filter fun p => !p.isEmpty && p != ".") = parts
  cases h : parts.getLast? <;> simp [h, allChars]

theorem matchesAll_host {host : String} (hok : syslogHostOk host = true) :
    matchesAll hostPattern host = true ∧ contains ".." host = false := by
  simp only [syslogHostOk, Bool.and_eq_true, Bool.not_eq_true', decide_eq_true_eq] at hok
  obtain ⟨⟨⟨⟨hne, hlen⟩, hdots⟩, -⟩, hall⟩ := hok
  rw [← Bool.not_eq_true, isEmpty_iff_toList] at hne
  refine ⟨Pattern.fullmatch_rep.mpr ⟨allChars_iff.mp hall, ?_, fun n hn => ?_⟩, hdots⟩
  · exact List.length_pos_iff.mpr hne
  · rw [Option.mem_some_iff] at hn
    have := (length_le_byteLen host).trans hlen
    rw [maxSyslogHostLen] at this
    omega

end LogEdit

/-! ### Numbers -/

theorem toString_ne_nil (n : ℕ) : (toString n).toList ≠ [] := by
  rw [toList_toString]
  exact Nat.toDigits_ne_nil

theorem startsWith_toString (n : ℕ) : startsWith "-" (toString n) = false := by
  rw [← Bool.not_eq_true, startsWith_char (c := '-') rfl]
  intro h
  exact absurd (isDigit_of_mem_toString (List.mem_of_head? h)) (by decide)

theorem intOf_toString (n : ℕ) : intOf (toString n) = some (n : ℤ) := by
  have hstart := startsWith_toString n
  have hne : (toString n).toList.isEmpty = false := by
    rw [List.isEmpty_eq_false_iff]
    exact toString_ne_nil n
  have hall : (toString n).toList.all Char.isDigit = true :=
    List.all_eq_true.mpr fun c hc => isDigit_of_mem_toString hc
  rw [intOf, stripStart_eq_none hstart, Option.getD_none, hne, hall, hstart, toList_toString]
  simp

theorem length_toString_le {n k : ℕ} (hk : 0 < k) (h : n < 10 ^ k) :
    (toString n).toList.length ≤ k := by
  rw [toList_toString]
  exact (Nat.length_toDigits_le_iff (by decide) hk).mpr h

/-- A positive number does not begin with a zero. -/
theorem head_toDigits_ne_zero {n : ℕ} (hn : n ≠ 0) : (Nat.toDigits 10 n).head? ≠ some '0' := by
  induction n using Nat.strong_induction_on with
  | h n ih =>
    by_cases hlt : n < 10
    · rw [Nat.toDigits_of_lt_base hlt]
      have hdigit : ∀ m < 10, m ≠ 0 → [Nat.digitChar m].head? ≠ some '0' := by decide
      exact hdigit n hlt hn
    · rw [Nat.toDigits_of_base_le (by decide) (Nat.not_lt.mp hlt),
        List.head?_append_of_ne_nil _ Nat.toDigits_ne_nil]
      exact ih (n / 10) (Nat.div_lt_self (by omega) (by decide)) (by omega)

namespace ActionSteps

theorem killTarget_toString {n : ℕ} (hpos : 2 ≤ n) (hbound : n < 2 ^ 32) :
    (∃ target, killTarget (toString n) = .ok target) ↔ n < 2 ^ 31 := by
  obtain ⟨c, cs, hcs⟩ := List.exists_cons_of_ne_nil (toString_ne_nil n)
  have hdigits : ∀ x ∈ c :: cs, x.isDigit = true := by
    rw [← hcs]
    exact fun x => isDigit_of_mem_toString
  have hc : c.isDigit = true := hdigits c List.mem_cons_self
  have hmatch : matchesAll pidPattern (toString n) = true := by
    refine Pattern.fullmatch_opt_seq.mpr (.inl (Pattern.fullmatch_one_seq.mpr ⟨c, cs, hcs, ?_, ?_⟩))
    · have hzero : c ≠ '0' := by
        rintro rfl
        refine head_toDigits_ne_zero (n := n) (by omega) ?_
        rw [← toList_toString, hcs, List.head?_cons]
      simp [hc, hzero]
    · refine Pattern.fullmatch_rep.mpr
        ⟨fun x hx => hdigits x (List.mem_cons_of_mem c hx), by omega, ?_⟩
      intro k hk
      have hlen := length_toString_le (n := n) (k := 10) (by decide) (by omega)
      rw [hcs, List.length_cons] at hlen
      rw [Option.mem_some_iff] at hk
      omega
  have hpid : pidOf (toString n) = (n : ℤ) := by
    have hvalue : Nat.ofDigitChars 10 (toString n).toList 0 = n := by
      rw [toList_toString, Nat.ofDigitChars_ten_toDigits]
    have hhyphen : c ≠ '-' := by
      rintro rfl
      exact absurd hc (by decide)
    rw [pidOf]
    split
    · rename_i digits heq
      rw [hcs, List.cons.injEq] at heq
      exact absurd heq.1 hhyphen
    · rw [hvalue]
  rw [killTarget, hmatch, hpid]
  simp only [Bool.not_true, Bool.false_eq_true, if_false, orRaise_eq_ok, exists_and_left,
    exists_eq, and_true, Int.natAbs_natCast, Bool.and_eq_true, decide_eq_true_eq]
  omega

theorem matchesAll_days {n : ℕ} (h : n ≤ 99999) :
    matchesAll daysPattern (toString n) = true := by
  refine Pattern.fullmatch_rep.mpr ⟨fun c hc => isDigit_of_mem_toString hc, ?_, fun k hk => ?_⟩
  · exact List.length_pos_iff.mpr (toString_ne_nil n)
  · rw [Option.mem_some_iff] at hk
    rw [← hk]
    exact length_toString_le (by decide) (by omega)

end ActionSteps

end Sysknife
