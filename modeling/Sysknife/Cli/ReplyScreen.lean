import Sysknife.Brain.Envelope
import Sysknife.Canonical

/-!
# The screen in front of MCP replies

What the MCP server answers with is screened as JSON on its way to the calling assistant:
`sanitise_result_json` normalises every string, keys included, and leaves the values of three
keys alone, because something further on compares their bytes.

* `cleanBut_of_sanitised`: what is returned has nothing invisible and no envelope tag outside the
  values of those keys, at whatever depth they stand.
* `kept_iff_noShadow`: nothing is lost on the way, unless a key in front of one of the three
  normalises to it.
-/

namespace Sysknife

open Brain

/-! ### The walk -/

/-- Object keys whose bytes must reach the caller unchanged. -/
def verbatimKeys : List String := ["params", "transaction_id", "approval_receipt"]

def mcpMaxOutputBytes : ℕ := 64 * 1024

/-- Why there is no screened reply. -/
inductive ScreenError
  | panic (p : Panic)
  /-- Two keys normalise to the same one. -/
  | collision (safeKey : String)
  /-- The screened reply no longer matches its own schema. -/
  | schema
  deriving DecidableEq, Repr

/-- Put a member into an object, in the place of the one with its key if there is one. -/
def insertMember (key : String) (value : Value) (members : List (String × Value)) :
    List (String × Value) :=
  if key ∈ members.map Prod.fst then members.map fun m => if m.1 = key then (key, value) else m
  else members ++ [(key, value)]

section Screen

variable (nfc : List Char → List Char)

def normaliseFreeTextCapped (raw : List Char) (maxBytes : ℕ) : Except Panic (List Char) := do
  let s ← normaliseUnboundedText nfc raw
  truncateWithMarker s maxBytes

/-- A string of a reply, normalised. -/
def screenText (s : String) : Except ScreenError String :=
  match normaliseFreeTextCapped nfc s.toList mcpMaxOutputBytes with
  | .ok text => .ok (String.ofList text)
  | .error p => .error (.panic p)

mutual

/-- Normalise every string of a value, but for the values of `verbatimKeys`. -/
def sanitiseResultJson : Value → Except ScreenError Value
  | .str s => do return .str (← screenText nfc s)
  | .arr items => do return .arr (← sanitiseItems items)
  | .obj members => do return .obj (← sanitiseMembers members [])
  | value => .ok value

def sanitiseItems : List Value → Except ScreenError (List Value)
  | [] => .ok []
  | item :: items => do
    let item ← sanitiseResultJson item
    let items ← sanitiseItems items
    return item :: items

/-- The loop over the members of an object, with the object rebuilt so far. -/
def sanitiseMembers :
    List (String × Value) → List (String × Value) → Except ScreenError (List (String × Value))
  | [], rebuilt => .ok rebuilt
  | (key, child) :: members, rebuilt =>
    if key ∈ verbatimKeys then sanitiseMembers members (insertMember key child rebuilt)
    else do
      let child ← sanitiseResultJson child
      let safeKey ← screenText nfc key
      if safeKey ∈ rebuilt.map Prod.fst then .error (.collision safeKey)
      else sanitiseMembers members (insertMember safeKey child rebuilt)

end

/-- A reply on its way to the caller. A type of replies stands for the JSON that its values
serialise to; `matches` says which that is. -/
def sanitised (fits : Value → Bool) (value : Value) : Except ScreenError Value := do
  let json ← sanitiseResultJson nfc value
  if fits json then .ok json else .error .schema

end Screen

/-! ### Rebuilding an object -/

section Members

variable {members rebuilt : List (String × Value)} {key : String} {value : Value}

theorem insertMember_of_notMem (h : key ∉ rebuilt.map Prod.fst) :
    insertMember key value rebuilt = rebuilt ++ [(key, value)] := by
  rw [insertMember, if_neg h]

theorem length_insertMember_of_mem (h : key ∈ rebuilt.map Prod.fst) :
    (insertMember key value rebuilt).length = rebuilt.length := by
  rw [insertMember, if_pos h, List.length_map]

theorem length_insertMember_le :
    (insertMember key value rebuilt).length ≤ rebuilt.length + 1 := by
  rw [insertMember]
  split_ifs <;> simp

/-- What holds of the members and of the new one holds afterwards. -/
theorem forall_insertMember {P : String × Value → Prop} (h : ∀ m ∈ rebuilt, P m)
    (hnew : P (key, value)) : ∀ m ∈ insertMember key value rebuilt, P m := by
  rw [insertMember]
  split_ifs
  · intro m hm
    obtain ⟨old, hold, rfl⟩ := List.mem_map.mp hm
    split_ifs
    · exact hnew
    · exact h old hold
  · rw [List.forall_mem_append, List.forall_mem_singleton]
    exact ⟨h, hnew⟩

end Members

/-! ### What is left in a reply -/

/-- A text without invisible characters, escapes among them, and without envelope tags. -/
def CleanText (s : String) : Prop := Visible s.toList ∧ Untagged s.toList

mutual

/-- Every text is clean, but for the values under `exempt` keys. -/
def CleanBut (exempt : List String) : Value → Prop
  | .str s => CleanText s
  | .arr items => CleanItems exempt items
  | .obj members => CleanMembers exempt members
  | _ => True

def CleanItems (exempt : List String) : List Value → Prop
  | [] => True
  | item :: items => CleanBut exempt item ∧ CleanItems exempt items

def CleanMembers (exempt : List String) : List (String × Value) → Prop
  | [] => True
  | (key, value) :: members =>
    (key ∈ exempt ∨ CleanText key ∧ CleanBut exempt value) ∧ CleanMembers exempt members

end

theorem cleanBut_arr {exempt : List String} {items : List Value} :
    CleanBut exempt (.arr items) ↔ ∀ v ∈ items, CleanBut exempt v := by
  rw [CleanBut]
  induction items with
  | nil => simp [CleanItems]
  | cons v vs ih => rw [CleanItems, ih, List.forall_mem_cons]

theorem cleanBut_obj {exempt : List String} {members : List (String × Value)} :
    CleanBut exempt (.obj members) ↔
      ∀ m ∈ members, m.1 ∈ exempt ∨ CleanText m.1 ∧ CleanBut exempt m.2 := by
  rw [CleanBut]
  induction members with
  | nil => simp [CleanMembers]
  | cons m ms ih => rw [CleanMembers, ih, List.forall_mem_cons]

section Clean

variable {nfc : List Char → List Char}

/-- A normalised string is clean. -/
theorem cleanText_of_screenText (hkept : ∀ s, ∀ c ∈ nfc s, dangerous c = true → c ∈ s)
    {s t : String} (h : screenText nfc s = .ok t) : CleanText t := by
  unfold screenText at h
  cases htext : normaliseFreeTextCapped nfc s.toList mcpMaxOutputBytes with
  | error p => simp [htext] at h
  | ok text =>
    obtain rfl : String.ofList text = t := by simpa [htext] using h
    obtain ⟨normalised, hnormalised, htruncated⟩ := exists_of_bind_eq_ok htext
    obtain ⟨stripped, -, hs⟩ := exists_of_bind_eq_ok hnormalised
    obtain rfl := Except.ok.inj hs
    have hvisible := visible_collapse (visible_neutralise (visible_normalised hkept stripped))
    have htagged := untagged_collapse (untagged_neutralise (nfc (stripDangerousUnicode stripped)))
    rw [CleanText, String.toList_ofList]
    exact ⟨visible_truncated htruncated hvisible, untagged_truncated htruncated htagged⟩

/-- The rebuilt object is clean if the object so far is. -/
theorem cleanMembers_of_sanitised (hkept : ∀ s, ∀ c ∈ nfc s, dangerous c = true → c ∈ s)
    {members rebuilt result : List (String × Value)}
    (hmembers : ∀ m ∈ members, ∀ r, sanitiseResultJson nfc m.2 = .ok r → CleanBut verbatimKeys r)
    (hrebuilt : CleanBut verbatimKeys (.obj rebuilt))
    (h : sanitiseMembers nfc members rebuilt = .ok result) :
    CleanBut verbatimKeys (.obj result) := by
  induction members generalizing rebuilt with
  | nil =>
    obtain rfl : rebuilt = result := by simpa [sanitiseMembers] using h
    exact hrebuilt
  | cons m members ih =>
    obtain ⟨key, child⟩ := m
    have hrest := fun m hm => hmembers m (List.mem_cons_of_mem _ hm)
    rw [cleanBut_obj] at hrebuilt
    rw [sanitiseMembers] at h
    split_ifs at h with hkey
    · refine ih hrest ?_ h
      rw [cleanBut_obj]
      exact forall_insertMember hrebuilt (.inl hkey)
    · obtain ⟨screened, hscreened, h⟩ := exists_of_bind_eq_ok h
      obtain ⟨safeKey, hsafe, h⟩ := exists_of_bind_eq_ok h
      split_ifs at h with hcollision
      refine ih hrest ?_ h
      rw [cleanBut_obj]
      exact forall_insertMember hrebuilt
        (.inr ⟨cleanText_of_screenText hkept hsafe, hmembers _ List.mem_cons_self _ hscreened⟩)

theorem cleanItems_of_sanitised {items result : List Value}
    (hitems : ∀ v ∈ items, ∀ r, sanitiseResultJson nfc v = .ok r → CleanBut verbatimKeys r)
    (h : sanitiseItems nfc items = .ok result) : CleanBut verbatimKeys (.arr result) := by
  rw [cleanBut_arr]
  induction items generalizing result with
  | nil =>
    obtain rfl : [] = result := by simpa [sanitiseItems] using h
    simp
  | cons item items ih =>
    rw [sanitiseItems] at h
    obtain ⟨screened, hscreened, h⟩ := exists_of_bind_eq_ok h
    obtain ⟨rest, hrest, h⟩ := exists_of_bind_eq_ok h
    obtain rfl := Except.ok.inj h
    rw [List.forall_mem_cons]
    exact ⟨hitems item List.mem_cons_self screened hscreened,
      ih (fun v hv => hitems v (List.mem_cons_of_mem item hv)) hrest⟩

/-- What the walk returns is clean outside the three keys. -/
theorem cleanBut_of_sanitiseResultJson
    (hkept : ∀ s, ∀ c ∈ nfc s, dangerous c = true → c ∈ s) (value : Value) :
    ∀ result, sanitiseResultJson nfc value = .ok result → CleanBut verbatimKeys result := by
  induction value using Value.induction with
  | null | bool b | int n | float t =>
    intro result h
    rw [sanitiseResultJson] at h
    · obtain rfl := Except.ok.inj h
      rw [CleanBut] <;> simp
    all_goals simp
  | str s =>
    intro result h
    rw [sanitiseResultJson] at h
    obtain ⟨t, ht, h⟩ := exists_of_bind_eq_ok h
    obtain rfl := Except.ok.inj h
    rw [CleanBut]
    exact cleanText_of_screenText hkept ht
  | arr items ih =>
    intro result h
    rw [sanitiseResultJson] at h
    obtain ⟨items', hitems, h⟩ := exists_of_bind_eq_ok h
    obtain rfl := Except.ok.inj h
    exact cleanItems_of_sanitised ih hitems
  | obj members ih =>
    intro result h
    rw [sanitiseResultJson] at h
    obtain ⟨members', hmembers, h⟩ := exists_of_bind_eq_ok h
    obtain rfl := Except.ok.inj h
    refine cleanMembers_of_sanitised hkept ih ?_ hmembers
    rw [cleanBut_obj]
    simp

end Clean

/-! ### What is exempt is not only a step's own -/

/-- Clean but for the three members of the step itself. -/
def StepClean : Value → Prop
  | .obj fields => ∀ f ∈ fields, f.1 ∈ verbatimKeys ∨ CleanText f.1 ∧ CleanBut [] f.2
  | step => CleanBut [] step

/-- Clean but for the three members of each of the reply's steps. -/
def CleanButSteps : Value → Prop
  | .obj members => ∀ m ∈ members, CleanText m.1 ∧
      match m with
      | ("steps", .arr steps) => ∀ step ∈ steps, StepClean step
      | m => CleanBut [] m.2
  | reply => CleanBut [] reply

/-- A plan of one step. The change it proposes holds the parameters once more. -/
def planWithParams : Value :=
  .obj [("explanation", .str ""), ("intent", .str ""),
    ("steps", .arr [.obj [("action_name", .str ""), ("command", .str ""), ("current_state", .null),
      ("expected_side_effects", .arr []), ("params", .obj [("file", .str "/swap\u200b")]),
      ("proposed_change", .obj [("action", .str ""),
        ("params", .obj [("file", .str "/swap\u200b")])]),
      ("reboot_required", .bool false), ("risk_level", .str ""),
      ("rollback_available", .bool false), ("summary", .str ""), ("transaction_id", .str ""),
      ("warnings", .arr [])]]),
    ("summary", .str "")]

theorem sanitised_planWithParams :
    sanitised id (fun _ => true) planWithParams = .ok planWithParams := by
  rfl

section Kept

variable (nfc : List Char → List Char)

mutual

/-- The result has everything the original has: items in their order, numbers as they are, and in
an object a member for each member, under a key of its own. -/
def Kept : Value → Value → Prop
  | .str _, result => ∃ t, result = .str t
  | .arr items, result => ∃ results, result = .arr results ∧ KeptItems items results
  | .obj members, result => ∃ results, result = .obj results ∧
      (results.map Prod.fst).Nodup ∧ KeptMembers members results
  | value, result => result = value

def KeptItems : List Value → List Value → Prop
  | [], results => results = []
  | item :: items, results =>
    ∃ r rs, results = r :: rs ∧ Kept item r ∧ KeptItems items rs

def KeptMembers : List (String × Value) → List (String × Value) → Prop
  | [], results => results = []
  | (key, value) :: members, results =>
    ∃ r rs, results = r :: rs ∧
      (if key ∈ verbatimKeys then r = (key, value)
        else screenText nfc key = .ok r.1 ∧ Kept value r.2) ∧ KeptMembers members rs

end

/-- A member whose key normalises to one of the three keys. -/
def Shadows (m : String × Value) (key : String) : Prop :=
  m.1 ∉ verbatimKeys ∧ screenText nfc m.1 = .ok key

mutual

/-- In no object does a key stand in front of one of the three that normalises to it. -/
def NoShadow : Value → Prop
  | .arr items => NoShadowItems items
  | .obj members =>
    members.Pairwise (fun m n => n.1 ∈ verbatimKeys → ¬ Shadows nfc m n.1) ∧
      NoShadowMembers members
  | _ => True

def NoShadowItems : List Value → Prop
  | [] => True
  | item :: items => NoShadow item ∧ NoShadowItems items

def NoShadowMembers : List (String × Value) → Prop
  | [] => True
  | (key, value) :: members =>
    (key ∈ verbatimKeys ∨ NoShadow value) ∧ NoShadowMembers members

end

end Kept

theorem keptItems_iff {nfc : List Char → List Char} {items results : List Value} :
    KeptItems nfc items results ↔ List.Forall₂ (Kept nfc) items results := by
  induction items generalizing results with
  | nil => rw [KeptItems, List.forall₂_nil_left_iff]
  | cons item items ih => simp only [KeptItems, List.forall₂_cons_left_iff, ih]; grind

/-- A member and what becomes of it, for one way of screening the value. -/
def Carried (nfc : List Char → List Char) (screens : Value → Value → Prop)
    (m r : String × Value) : Prop :=
  if m.1 ∈ verbatimKeys then r = m else screenText nfc m.1 = .ok r.1 ∧ screens m.2 r.2

theorem keptMembers_iff {nfc : List Char → List Char} {members results : List (String × Value)} :
    KeptMembers nfc members results ↔
      List.Forall₂ (Carried nfc (Kept nfc)) members results := by
  induction members generalizing results with
  | nil => rw [KeptMembers, List.forall₂_nil_left_iff]
  | cons m members ih => simp only [KeptMembers, List.forall₂_cons_left_iff, ih, Carried]; grind

theorem noShadow_arr {nfc : List Char → List Char} {items : List Value} :
    NoShadow nfc (.arr items) ↔ ∀ v ∈ items, NoShadow nfc v := by
  rw [NoShadow]
  induction items with
  | nil => simp [NoShadowItems]
  | cons v vs ih => rw [NoShadowItems, ih, List.forall_mem_cons]

theorem noShadow_obj {nfc : List Char → List Char} {members : List (String × Value)} :
    NoShadow nfc (.obj members) ↔
      members.Pairwise (fun m n => n.1 ∈ verbatimKeys → ¬ Shadows nfc m n.1) ∧
        ∀ m ∈ members, m.1 ∈ verbatimKeys ∨ NoShadow nfc m.2 := by
  have hmembers : NoShadowMembers nfc members ↔
      ∀ m ∈ members, m.1 ∈ verbatimKeys ∨ NoShadow nfc m.2 := by
    induction members with
    | nil => simp [NoShadowMembers]
    | cons m ms ih => rw [NoShadowMembers, ih, List.forall_mem_cons]
  rw [NoShadow, hmembers]

section Members

variable {nfc : List Char → List Char} {members rebuilt result : List (String × Value)}

/-- The object so far and the members to come do not get into each other's way. -/
def Clear (nfc : List Char → List Char) (rebuilt members : List (String × Value)) : Prop :=
  (∀ n ∈ members, n.1 ∈ verbatimKeys → n.1 ∉ rebuilt.map Prod.fst) ∧
    members.Pairwise fun m n => n.1 ∈ verbatimKeys → ¬ Shadows nfc m n.1

/-- One more member in the object so far is in the way of its own key. -/
theorem clear_concat {key : String} {value : Value} :
    Clear nfc (rebuilt ++ [(key, value)]) members ↔
      Clear nfc rebuilt members ∧ ∀ n ∈ members, n.1 ∈ verbatimKeys → key ≠ n.1 := by
  simp only [Clear, List.map_append, List.mem_append, List.map_singleton, List.mem_singleton,
    not_or]
  constructor
  · rintro ⟨hmem, hpairwise⟩
    exact ⟨⟨fun n hn hkey => (hmem n hn hkey).1, hpairwise⟩,
      fun n hn hkey => Ne.symm (hmem n hn hkey).2⟩
  · rintro ⟨⟨hmem, hpairwise⟩, hne⟩
    exact ⟨fun n hn hkey => ⟨hmem n hn hkey, Ne.symm (hne n hn hkey)⟩, hpairwise⟩

theorem clear_cons {m : String × Value} : Clear nfc rebuilt (m :: members) ↔
    (m.1 ∈ verbatimKeys → m.1 ∉ rebuilt.map Prod.fst) ∧ Clear nfc rebuilt members ∧
      ∀ n ∈ members, n.1 ∈ verbatimKeys → ¬ Shadows nfc m n.1 := by
  rw [Clear, Clear, List.forall_mem_cons, List.pairwise_cons]
  tauto

/-- A member under one of the three keys is in nobody's way but that of its own key. -/
theorem clear_cons_verbatim {key : String} {child : Value} (hkey : key ∈ verbatimKeys)
    (hnodup : key ∉ members.map Prod.fst) :
    Clear nfc rebuilt ((key, child) :: members) ↔
      key ∉ rebuilt.map Prod.fst ∧ Clear nfc (rebuilt ++ [(key, child)]) members := by
  have hne : ∀ n ∈ members, n.1 ∈ verbatimKeys → key ≠ n.1 :=
    fun n hn _ h => hnodup (List.mem_map.mpr ⟨n, hn, h.symm⟩)
  have hshadows : ∀ n ∈ members, n.1 ∈ verbatimKeys → ¬ Shadows nfc (key, child) n.1 :=
    fun _ _ _ h => h.1 hkey
  rw [clear_cons, clear_concat, and_iff_left hne, and_iff_left hshadows]
  exact and_congr_left fun _ => forall_prop_of_true hkey

/-- A screened member is in the way of the key it is rebuilt under. -/
theorem clear_cons_screened {key safeKey : String} {child screened : Value}
    (hkey : key ∉ verbatimKeys) (hsafe : screenText nfc key = .ok safeKey) :
    Clear nfc rebuilt ((key, child) :: members) ↔
      Clear nfc (rebuilt ++ [(safeKey, screened)]) members := by
  have hshadows : ∀ k, Shadows nfc (key, child) k ↔ safeKey = k := by
    intro k
    simp [Shadows, hkey, hsafe]
  simp only [clear_cons, clear_concat, hshadows, hkey, false_implies, true_and, ne_eq]

theorem length_sanitiseMembers_le (h : sanitiseMembers nfc members rebuilt = .ok result) :
    result.length ≤ rebuilt.length + members.length := by
  induction members generalizing rebuilt with
  | nil =>
    obtain rfl : rebuilt = result := by simpa [sanitiseMembers] using h
    simp
  | cons m members ih =>
    obtain ⟨key, child⟩ := m
    rw [List.length_cons]
    rw [sanitiseMembers] at h
    split_ifs at h with hkey
    · have hlength := ih h
      have hinsert := @length_insertMember_le rebuilt key child
      omega
    · obtain ⟨screened, -, h⟩ := exists_of_bind_eq_ok h
      obtain ⟨safeKey, -, h⟩ := exists_of_bind_eq_ok h
      split_ifs at h
      have hlength := ih h
      have hinsert := @length_insertMember_le rebuilt safeKey screened
      omega

/-- Where members do get into each other's way, one of them is lost. -/
theorem length_sanitiseMembers_lt (hnodup : (members.map Prod.fst).Nodup)
    (hclear : ¬ Clear nfc rebuilt members)
    (h : sanitiseMembers nfc members rebuilt = .ok result) :
    result.length < rebuilt.length + members.length := by
  induction members generalizing rebuilt with
  | nil => exact absurd ⟨by simp, .nil⟩ hclear
  | cons m members ih =>
    obtain ⟨key, child⟩ := m
    obtain ⟨hnew, hnodup⟩ := List.nodup_cons.mp hnodup
    rw [List.length_cons]
    rw [sanitiseMembers] at h
    split_ifs at h with hkey
    · by_cases hmem : key ∈ rebuilt.map Prod.fst
      · -- the value that stood there is overwritten
        have hlength := length_sanitiseMembers_le h
        rw [length_insertMember_of_mem hmem] at hlength
        omega
      · rw [insertMember_of_notMem hmem] at h
        rw [clear_cons_verbatim hkey hnew] at hclear
        have hlength := ih hnodup (fun hrest => hclear ⟨hmem, hrest⟩) h
        rw [List.length_append, List.length_singleton] at hlength
        omega
    · obtain ⟨screened, -, h⟩ := exists_of_bind_eq_ok h
      obtain ⟨safeKey, hsafe, h⟩ := exists_of_bind_eq_ok h
      split_ifs at h with hcollision
      rw [insertMember_of_notMem hcollision] at h
      rw [clear_cons_screened hkey hsafe] at hclear
      have hlength := ih hnodup hclear h
      rw [List.length_append, List.length_singleton] at hlength
      omega

/-- Where they do not, each is there, behind the object so far. -/
theorem exists_carried_of_clear (hnodup : (members.map Prod.fst).Nodup)
    (hrebuilt : (rebuilt.map Prod.fst).Nodup) (hclear : Clear nfc rebuilt members)
    (h : sanitiseMembers nfc members rebuilt = .ok result) :
    (result.map Prod.fst).Nodup ∧ ∃ carried, result = rebuilt ++ carried ∧
      List.Forall₂ (Carried nfc fun v r => sanitiseResultJson nfc v = .ok r) members carried := by
  induction members generalizing rebuilt with
  | nil =>
    obtain rfl : rebuilt = result := by simpa [sanitiseMembers] using h
    exact ⟨hrebuilt, [], by simp, .nil⟩
  | cons m members ih =>
    obtain ⟨key, child⟩ := m
    obtain ⟨hnew, hnodup⟩ := List.nodup_cons.mp hnodup
    have hextend : ∀ {k : String} {v : Value}, k ∉ rebuilt.map Prod.fst →
        ((rebuilt ++ [(k, v)]).map Prod.fst).Nodup := by
      intro k v hk
      rw [List.map_append, List.map_singleton, ← List.concat_eq_append]
      exact hrebuilt.concat hk
    rw [sanitiseMembers] at h
    split_ifs at h with hkey
    · obtain ⟨hmem, hrest⟩ := (clear_cons_verbatim hkey hnew).mp hclear
      rw [insertMember_of_notMem hmem] at h
      obtain ⟨hkeys, carried, hresult, hcarried⟩ := ih hnodup (hextend hmem) hrest h
      refine ⟨hkeys, (key, child) :: carried, by simpa using hresult, .cons ?_ hcarried⟩
      rw [Carried, if_pos hkey]
    · obtain ⟨screened, hscreened, h⟩ := exists_of_bind_eq_ok h
      obtain ⟨safeKey, hsafe, h⟩ := exists_of_bind_eq_ok h
      split_ifs at h with hcollision
      rw [insertMember_of_notMem hcollision] at h
      have hrest : Clear nfc (rebuilt ++ [(safeKey, screened)]) members :=
        (clear_cons_screened hkey hsafe).mp hclear
      obtain ⟨hkeys, carried, hresult, hcarried⟩ := ih hnodup (hextend hcollision) hrest h
      refine ⟨hkeys, (safeKey, screened) :: carried, by simpa using hresult, .cons ?_ hcarried⟩
      rw [Carried, if_neg hkey]
      exact ⟨hsafe, hscreened⟩

end Members

section Main

variable {nfc : List Char → List Char}

theorem length_of_keptMembers {members results : List (String × Value)}
    (h : KeptMembers nfc members results) : results.length = members.length :=
  (keptMembers_iff.mp h).length_eq.symm

/-- An array keeps what its items keep. -/
theorem keptItems_of_sanitised {items results : List Value}
    (ih : ∀ v ∈ items, ∀ r, sanitiseResultJson nfc v = .ok r → (Kept nfc v r ↔ NoShadow nfc v))
    (h : sanitiseItems nfc items = .ok results) :
    List.Forall₂ (Kept nfc) items results ↔ ∀ v ∈ items, NoShadow nfc v := by
  induction items generalizing results with
  | nil =>
    obtain rfl : [] = results := by simpa [sanitiseItems] using h
    simp
  | cons item items hitems =>
    rw [sanitiseItems] at h
    obtain ⟨screened, hscreened, h⟩ := exists_of_bind_eq_ok h
    obtain ⟨rest, hrest, h⟩ := exists_of_bind_eq_ok h
    obtain rfl := Except.ok.inj h
    rw [List.forall₂_cons, List.forall_mem_cons, ih item List.mem_cons_self screened hscreened,
      hitems (fun v hv => ih v (List.mem_cons_of_mem item hv)) hrest]

/-- So do the members that are carried over. -/
theorem keptMembers_of_carried {members carried : List (String × Value)}
    (ih : ∀ m ∈ members, ∀ r, sanitiseResultJson nfc m.2 = .ok r →
      (Kept nfc m.2 r ↔ NoShadow nfc m.2))
    (h : List.Forall₂ (Carried nfc fun v r => sanitiseResultJson nfc v = .ok r) members carried) :
    List.Forall₂ (Carried nfc (Kept nfc)) members carried ↔
      ∀ m ∈ members, m.1 ∈ verbatimKeys ∨ NoShadow nfc m.2 := by
  induction h with
  | nil => simp
  | @cons m r members carried hhead _ hrest =>
    have hmember : Carried nfc (Kept nfc) m r ↔ m.1 ∈ verbatimKeys ∨ NoShadow nfc m.2 := by
      rw [Carried] at hhead ⊢
      split_ifs at hhead ⊢ with hkey
      · exact iff_of_true hhead (.inl hkey)
      · rw [or_iff_right hkey, and_iff_right hhead.1, ih m List.mem_cons_self _ hhead.2]
    rw [List.forall₂_cons, List.forall_mem_cons, hmember,
      hrest fun m hm => ih m (List.mem_cons_of_mem _ hm)]

/-- **When nothing is lost.** A value that is screened keeps its items, its members and its
numbers, and the three keys keep their values, if and only if nowhere in it a key stands in front
of one of the three that normalises to it. Such a key is not refused as the others are. -/
theorem kept_iff_noShadow (nfc : List Char → List Char) (value result : Value)
    (hvalue : value.WellFormed) (h : sanitiseResultJson nfc value = .ok result) :
    Kept nfc value result ↔ NoShadow nfc value := by
  induction value using Value.induction generalizing result with
  | null | bool b | int n | float t =>
    rw [sanitiseResultJson] at h
    · obtain rfl := Except.ok.inj h
      rw [Kept, NoShadow] <;> simp
    all_goals simp
  | str s =>
    rw [sanitiseResultJson] at h
    obtain ⟨t, -, h⟩ := exists_of_bind_eq_ok h
    obtain rfl := Except.ok.inj h
    rw [NoShadow] <;> simp [Kept]
  | arr items ih =>
    rw [sanitiseResultJson] at h
    obtain ⟨results, hitems, h⟩ := exists_of_bind_eq_ok h
    obtain rfl := Except.ok.inj h
    rw [Value.wellFormed_arr] at hvalue
    have hkept := keptItems_of_sanitised (fun v hv r => ih v hv r (hvalue v hv)) hitems
    rw [noShadow_arr, ← hkept, ← keptItems_iff]
    simp [Kept]
  | obj members ih =>
    rw [sanitiseResultJson] at h
    obtain ⟨results, hmembers, h⟩ := exists_of_bind_eq_ok h
    obtain rfl := Except.ok.inj h
    obtain ⟨hnodup, hvalues⟩ := Value.wellFormed_obj.mp hvalue
    have hobject : Kept nfc (.obj members) (.obj results) ↔
        (results.map Prod.fst).Nodup ∧ KeptMembers nfc members results := by
      simp [Kept]
    have hclear : Clear nfc [] members ↔
        members.Pairwise fun m n => n.1 ∈ verbatimKeys → ¬ Shadows nfc m n.1 :=
      and_iff_right fun _ _ _ => List.not_mem_nil
    rw [hobject, noShadow_obj, ← hclear]
    by_cases hshadow : Clear nfc [] members
    · obtain ⟨hkeys, carried, rfl, hcarried⟩ :=
        exists_carried_of_clear hnodup (by simp) hshadow hmembers
      rw [and_iff_right hkeys, and_iff_right hshadow, keptMembers_iff]
      exact keptMembers_of_carried (fun m hm r => ih m hm r (hvalues m hm)) hcarried
    · refine iff_of_false (fun hkept => ?_) fun h => hshadow h.1
      have hlength := length_sanitiseMembers_lt hnodup hshadow hmembers
      have hkept := length_of_keptMembers hkept.2
      rw [List.length_nil] at hlength
      omega

theorem kept_iff_noShadow_array : Kept id (.arr [.null, .int 1]) (.arr [.null, .int 1]) ↔
    NoShadow id (.arr [.null, .int 1]) :=
  kept_iff_noShadow id (.arr [.null, .int 1]) (.arr [.null, .int 1])
    (Value.wellFormed_arr.mpr (by simp [Value.WellFormed])) (by rfl)

/-- The parameters behind a key that shows as `params`. Only one of the two is returned. -/
theorem not_kept : ¬ ∀ (nfc : List Char → List Char) (value result : Value),
    value.WellFormed → sanitiseResultJson nfc value = .ok result → Kept nfc value result := by
  intro h
  have hkept := h id (.obj [("\x1b[0mparams", .int 1), ("params", .int 2)])
    (.obj [("params", .int 2)]) (Value.wellFormed_obj.mpr ⟨by decide, by simp [Value.WellFormed]⟩)
    (by rfl)
  have hmembers : KeptMembers id [("\x1b[0mparams", .int 1), ("params", .int 2)]
      [("params", .int 2)] := by
    rw [Kept] at hkept
    obtain ⟨_, hresults, -, hmembers⟩ := hkept
    obtain rfl := Value.obj.inj hresults
    exact hmembers
  exact absurd (length_of_keptMembers hmembers) (by decide)

end Main

end Sysknife
