import Mathlib.Data.List.Nodup
import Mathlib.Tactic.IntervalCases
import Sysknife.Json
import Sysknife.Lib.Printing

/-!
# What canonical JSON says of a value

The canonical rendering prints an object with its keys sorted. Two values have the same rendering
exactly if they are the same value up to the order of keys (`canonicalJson_eq_iff`).

* `Value.Same` is equality up to the order of keys, with numbers compared as they are printed.
* `Value.WellFormed` is what `serde_json` guarantees of its values: an object has a key once, and a
  number is printed with the characters of numbers.
* `text_read` reads a value off the front of a text. It is by induction on the value; an item is
  followed by a comma or a closing bracket, and neither can go on a number.
-/

namespace Sysknife.Value

open Printing

/-- Induction through the items of arrays and the members of objects. -/
theorem induction {P : Value → Prop} (null : P .null) (bool : ∀ b, P (.bool b))
    (int : ∀ n, P (.int n)) (float : ∀ t, P (.float t)) (str : ∀ s, P (.str s))
    (arr : ∀ items, (∀ v ∈ items, P v) → P (.arr items))
    (obj : ∀ members, (∀ m ∈ members, P m.2) → P (.obj members)) (v : Value) : P v :=
  @Value.rec P (fun items => ∀ v ∈ items, P v) (fun members => ∀ m ∈ members, P m.2)
    (fun m => P m.2) null bool int float str arr obj (by simp)
    (fun _ _ hv hvs => by simpa using ⟨hv, hvs⟩) (by simp)
    (fun _ _ hm hms => by simpa using ⟨hm, fun k v hkv => hms (k, v) hkv⟩) (fun _ _ hv => hv) v

/-! ### Equality up to the order of keys -/

/-- The text of a number. -/
def numberText : Value → Option String
  | .int n => some (toString n)
  | .float text => some text
  | _ => none

mutual

/-- Structural equality that ignores the order of keys; numbers are compared as printed. -/
def Same : Value → Value → Prop
  | .null, w => w = .null
  | .bool b, w => w = .bool b
  | .int n, w => w.numberText = some (toString n)
  | .float text, w => w.numberText = some text
  | .str s, w => w = .str s
  | .arr vs, .arr ws => SameItems vs ws
  | .obj ms, .obj ns => SameMembers ms ns ∧ ∀ k ∈ ns.map Prod.fst, k ∈ ms.map Prod.fst
  | _, _ => False

/-- Items are compared in order. -/
def SameItems : List Value → List Value → Prop
  | [], [] => True
  | v :: vs, w :: ws => Same v w ∧ SameItems vs ws
  | _, _ => False

/-- Each member has a counterpart under its key. -/
def SameMembers : List (String × Value) → List (String × Value) → Prop
  | [], _ => True
  | (k, v) :: ms, ns => (∃ w, (k, w) ∈ ns ∧ Same v w) ∧ SameMembers ms ns

end

theorem same_arr {vs ws : List Value} : Same (.arr vs) (.arr ws) ↔ List.Forall₂ Same vs ws := by
  rw [Same]
  induction vs generalizing ws with
  | nil => cases ws <;> simp [SameItems]
  | cons v vs ih => cases ws <;> simp [SameItems, ih]

theorem same_obj {ms ns : List (String × Value)} : Same (.obj ms) (.obj ns) ↔
    (∀ m ∈ ms, ∃ w, (m.1, w) ∈ ns ∧ Same m.2 w) ∧
      ∀ k ∈ ns.map Prod.fst, k ∈ ms.map Prod.fst := by
  have hmembers : SameMembers ms ns ↔ ∀ m ∈ ms, ∃ w, (m.1, w) ∈ ns ∧ Same m.2 w := by
    induction ms with
    | nil => simp [SameMembers]
    | cons m ms ih => rw [SameMembers, ih, List.forall_mem_cons]
  rw [Same, hmembers]

/-! ### Values of `serde_json` -/

/-- A character of a printed number. -/
def IsNumberChar (c : Char) : Prop := c.isDigit ∨ c ∈ ['-', '+', '.', 'e', 'E']

mutual

/-- An object has each key once, and a floating-point number is printed as one. -/
def WellFormed : Value → Prop
  | .float text => text ≠ "" ∧ ∀ c ∈ text.toList, IsNumberChar c
  | .arr items => WellFormedItems items
  | .obj members => (members.map Prod.fst).Nodup ∧ WellFormedMembers members
  | _ => True

def WellFormedItems : List Value → Prop
  | [] => True
  | v :: vs => WellFormed v ∧ WellFormedItems vs

def WellFormedMembers : List (String × Value) → Prop
  | [] => True
  | (_, v) :: ms => WellFormed v ∧ WellFormedMembers ms

end

theorem wellFormed_arr {items : List Value} :
    WellFormed (.arr items) ↔ ∀ v ∈ items, WellFormed v := by
  rw [WellFormed]
  induction items with
  | nil => simp [WellFormedItems]
  | cons v vs ih => rw [WellFormedItems, ih, List.forall_mem_cons]

theorem wellFormed_obj {members : List (String × Value)} : WellFormed (.obj members) ↔
    (members.map Prod.fst).Nodup ∧ ∀ m ∈ members, WellFormed m.2 := by
  have hmembers : WellFormedMembers members ↔ ∀ m ∈ members, WellFormed m.2 := by
    induction members with
    | nil => simp [WellFormedMembers]
    | cons m ms ih => rw [WellFormedMembers, ih, List.forall_mem_cons]
  rw [WellFormed, hmembers]

/-! ### The text of a value -/

/-- The canonical rendering, as characters. -/
def text (v : Value) : List Char := v.canonicalJson.toList

/-- The text of a string literal. -/
theorem toList_quote (s : String) : (quote s).toList =
    '"' :: (s.toList.flatMap (fun c => (escapeChar c).toList) ++ ['"']) := by
  simp [quote, String.toList_join, List.flatMap_map]

/-- The members of an object in the order of their keys. -/
def byKey (members : List (String × Value)) : List (String × Value) :=
  members.mergeSort fun a b => decide (a.1 ≤ b.1)

theorem mem_byKey {members : List (String × Value)} {m : String × Value} :
    m ∈ byKey members ↔ m ∈ members :=
  List.mem_mergeSort

/-- The text of a member. -/
def memberText (m : String × Value) : List Char := (quote m.1).toList ++ ':' :: m.2.text

theorem canonicalItems_eq (items : List Value) :
    canonicalItems items = items.map canonicalJson := by
  induction items with
  | nil => rfl
  | cons v vs ih => rw [canonicalItems, ih, List.map_cons]

theorem canonicalMembers_eq (members : List (String × Value)) :
    canonicalMembers members = members.map fun m => (m.1, m.2.canonicalJson) := by
  induction members with
  | nil => rfl
  | cons m ms ih => rw [canonicalMembers, ih, List.map_cons]

theorem text_arr (items : List Value) :
    text (.arr items) = '[' :: ([','].intercalate (items.map text) ++ [']']) := by
  simp only [text, canonicalJson, canonicalItems_eq, String.toList_append,
    String.toList_intercalate, List.map_map]
  rfl

theorem text_obj (members : List (String × Value)) : text (.obj members) =
    '\x7b' :: ([','].intercalate ((byKey members).map memberText) ++ ['\x7d']) := by
  have hsorted : (canonicalMembers members).mergeSort (fun a b => decide (a.1 ≤ b.1)) =
      (byKey members).map fun m => (m.1, m.2.canonicalJson) := by
    rw [canonicalMembers_eq, byKey]
    refine (List.map_mergeSort ?_).symm
    exact fun _ _ _ _ => rfl
  simp only [text, canonicalJson, hsorted, String.toList_append, String.toList_intercalate,
    List.map_map]
  have hmember : String.toList ∘ (fun p : String × String => quote p.1 ++ ":" ++ p.2) ∘
      (fun m : String × Value => (m.1, m.2.canonicalJson)) = memberText := by
    funext m
    simp [memberText, text]
  rw [hmember]
  rfl

/-! ### Reading a value off the front of a text -/

/-- A text that does not go on with a number. -/
def Stops (r : List Char) : Prop := ∀ c ∈ r.head?, ¬ IsNumberChar c

theorem stops_cons {c : Char} (h : ¬ IsNumberChar c) (r : List Char) : Stops (c :: r) := by
  simpa [Stops] using h

/-- Reads one character of a string literal. -/
private def readChar : List Char → Option (Char × List Char)
  | '\\' :: 'u' :: '0' :: '0' :: hi :: lo :: r =>
    some (Char.ofNat (16 * (hi.toNat - 48) + (lo.toNat - if lo.toNat < 97 then 48 else 87)), r)
  | '\\' :: 'n' :: r => some ('\n', r)
  | '\\' :: 'r' :: r => some ('\r', r)
  | '\\' :: 't' :: r => some ('\t', r)
  | '\\' :: 'b' :: r => some (Char.ofNat 8, r)
  | '\\' :: 'f' :: r => some (Char.ofNat 12, r)
  | '\\' :: c :: r => some (c, r)
  | c :: r => some (c, r)
  | [] => none

/-- A character is a control character, one of the two that are escaped, or stands for itself. -/
private theorem char_cases {P : Char → Prop} (control : ∀ n < 32, P (Char.ofNat n))
    (quote : P '"') (slash : P '\\')
    (plain : ∀ c, escapeChar c = String.singleton c → c ≠ '"' → c ≠ '\\' → P c) (c : Char) :
    P c := by
  by_cases hlow : c.toNat < 32
  · exact Char.ofNat_toNat c ▸ control c.toNat hlow
  · by_cases hquote : c = '"'
    · exact hquote ▸ quote
    · by_cases hslash : c = '\\'
      · exact hslash ▸ slash
      · have hn : c ≠ '\n' ∧ c ≠ '\r' ∧ c ≠ '\t' := by
          refine ⟨?_, ?_, ?_⟩ <;> rintro rfl <;> exact hlow (by decide)
        refine plain c ?_ hquote hslash
        rw [escapeChar, if_neg hquote, if_neg hslash, if_neg hn.1, if_neg hn.2.1, if_neg hn.2.2,
          if_neg (by omega), if_neg (by omega), if_neg (by omega), if_neg hlow]

private theorem readChar_escapeChar (c : Char) (r : List Char) :
    readChar ((escapeChar c).toList ++ r) = some (c, r) := by
  induction c using char_cases with
  | control n hn => interval_cases n <;> rfl
  | quote => rfl
  | slash => rfl
  | plain c hplain hquote hslash =>
    rw [hplain, String.toList_singleton]
    simp [readChar, hslash]

/-- An escape opens with a backslash or is the character itself. -/
private theorem opensOther_escapeChar (c : Char) : OpensOther '"' (escapeChar c).toList := by
  induction c using char_cases with
  | control n hn => interval_cases n <;> exact ⟨'\\', _, rfl, by decide⟩
  | quote => exact ⟨'\\', _, rfl, by decide⟩
  | slash => exact ⟨'\\', _, rfl, by decide⟩
  | plain c hplain hquote hslash =>
    rw [hplain, String.toList_singleton]
    exact ⟨c, [], rfl, hquote⟩

/-- A string literal ends at its closing quote. -/
theorem quote_read {s t : String} {r r' : List Char}
    (h : (quote s).toList ++ r = (quote t).toList ++ r') : s = t ∧ r = r' := by
  simp only [toList_quote, List.cons_append, List.append_assoc, List.cons.injEq, true_and,
    List.nil_append] at h
  have hword (a b : Char) (r s : List Char)
      (hab : (escapeChar a).toList ++ r = (escapeChar b).toList ++ s) : a = b ∧ r = s := by
    have hread := congrArg readChar hab
    rw [readChar_escapeChar, readChar_escapeChar] at hread
    exact Prod.mk.inj (Option.some.inj hread)
  obtain ⟨hst, hrest⟩ := flatMap_read opensOther_escapeChar hword h
  exact ⟨String.toList_injective hst, hrest⟩

/-- What the first character of a text tells of the value. -/
private inductive Shape
  | null | bool | number | string | array | object

private def Shape.ofChar : Char → Shape
  | 'n' => .null
  | 't' => .bool
  | 'f' => .bool
  | '"' => .string
  | '[' => .array
  | '\x7b' => .object
  | _ => .number

private def shape : Value → Shape
  | .null => .null
  | .bool _ => .bool
  | .int _ => .number
  | .float _ => .number
  | .str _ => .string
  | .arr _ => .array
  | .obj _ => .object

private theorem ofChar_of_isNumberChar {c : Char} (h : IsNumberChar c) :
    Shape.ofChar c = .number ∧ c ≠ ']' := by
  rcases h with hdigit | hsign
  · obtain ⟨hlow, hhigh⟩ := Char.isDigit_iff_toNat.mp hdigit
    have hc : c = Char.ofNat c.toNat := (Char.ofNat_toNat c).symm
    rw [hc]
    generalize c.toNat = n at hlow hhigh
    change 48 ≤ n at hlow
    change n ≤ 57 at hhigh
    interval_cases n <;> exact ⟨rfl, by decide⟩
  · have hsigns : ∀ c ∈ ['-', '+', '.', 'e', 'E'], Shape.ofChar c = .number ∧ c ≠ ']' := by
      simp [Shape.ofChar]
    exact hsigns c hsign

private theorem isNumberChar_repr (n : ℕ) :
    n.repr ≠ "" ∧ ∀ c ∈ n.repr.toList, IsNumberChar c := by
  constructor
  · intro h
    have hlength : 0 < n.repr.length := Nat.length_repr_pos
    rw [h, String.length_empty] at hlength
    exact absurd hlength (lt_irrefl 0)
  · intro c hc
    rw [Nat.toList_repr] at hc
    exact .inl (Nat.isDigit_of_mem_toDigits (by decide) (by decide) hc)

/-- The printed text of a number. -/
private theorem isNumberChar_numberText {v : Value} (hv : v.WellFormed) {t : String}
    (h : v.numberText = some t) : t ≠ "" ∧ ∀ c ∈ t.toList, IsNumberChar c := by
  cases v with
  | int n =>
    obtain rfl : toString n = t := Option.some.inj h
    cases n with
    | ofNat n => exact isNumberChar_repr n
    | negSucc n =>
      change "-" ++ (n + 1).repr ≠ "" ∧ ∀ c ∈ ("-" ++ (n + 1).repr).toList, IsNumberChar c
      refine ⟨by simp, ?_⟩
      simpa [IsNumberChar] using (isNumberChar_repr (n + 1)).2
  | float text =>
    rw [WellFormed] at hv
    exact Option.some.inj h ▸ hv
  | _ => cases h

theorem text_of_numberText {v : Value} {t : String} (h : v.numberText = some t) :
    v.text = t.toList := by
  cases v with
  | int n =>
    obtain rfl : toString n = t := Option.some.inj h
    rw [text, canonicalJson]
  | float text =>
    obtain rfl : text = t := Option.some.inj h
    rw [Value.text, canonicalJson]
  | _ => cases h

/-- The first character of a text tells what the value is, and no text opens with a bracket that
closes. -/
private theorem text_opens {v : Value} (hv : v.WellFormed) :
    ∃ c r, v.text = c :: r ∧ Shape.ofChar c = v.shape ∧ c ≠ ']' := by
  have hnumber {t : String} (h : v.numberText = some t) (hshape : v.shape = .number) :
      ∃ c r, v.text = c :: r ∧ Shape.ofChar c = v.shape ∧ c ≠ ']' := by
    obtain ⟨hne, hchars⟩ := isNumberChar_numberText hv h
    rw [text_of_numberText h, hshape]
    cases htext : t.toList with
    | nil => exact absurd (String.toList_eq_nil_iff.mp htext) hne
    | cons c r =>
      have hc := ofChar_of_isNumberChar (hchars c (htext ▸ List.mem_cons_self))
      exact ⟨c, r, rfl, hc⟩
  cases v with
  | null => exact ⟨'n', _, rfl, rfl, by decide⟩
  | bool b =>
    cases b with
    | false => exact ⟨'f', _, rfl, rfl, by decide⟩
    | true => exact ⟨'t', _, rfl, rfl, by decide⟩
  | int n => exact hnumber rfl rfl
  | float t => exact hnumber rfl rfl
  | str s =>
    have htext : (str s).text = (quote s).toList := by rw [text, canonicalJson]
    exact ⟨'"', _, htext.trans (toList_quote s), rfl, by decide⟩
  | arr items => exact ⟨'[', _, text_arr items, rfl, by decide⟩
  | obj members => exact ⟨'\x7b', _, text_obj members, rfl, by decide⟩

private theorem shape_eq_of_text {v w : Value} (hv : v.WellFormed) (hw : w.WellFormed)
    {r s : List Char} (h : v.text ++ r = w.text ++ s) : v.shape = w.shape := by
  obtain ⟨c, t, hvtext, hvshape, -⟩ := text_opens hv
  obtain ⟨d, u, hwtext, hwshape, -⟩ := text_opens hw
  rw [hvtext, hwtext] at h
  rw [← hvshape, ← hwshape, (List.cons.inj h).1]

private theorem shape_eq_number {v : Value} : v.shape = .number ↔ ∃ t, v.numberText = some t := by
  cases v <;> simp [shape, numberText]

/-- Two numbers at the front of a text. -/
private theorem number_read {v w : Value} (hv : v.WellFormed) (hw : w.WellFormed) {t : String}
    (hnumber : v.numberText = some t) {r s : List Char} (hr : Stops r) (hs : Stops s)
    (h : v.text ++ r = w.text ++ s) : w.numberText = some t ∧ r = s := by
  have hshape : w.shape = .number :=
    (shape_eq_of_text hv hw h).symm.trans (shape_eq_number.mpr ⟨t, hnumber⟩)
  obtain ⟨u, hu⟩ := shape_eq_number.mp hshape
  rw [text_of_numberText hnumber, text_of_numberText hu] at h
  obtain ⟨htu, hrest⟩ := token_read (isNumberChar_numberText hv hnumber).2
    (isNumberChar_numberText hw hu).2 hr hs h
  rw [hu, String.toList_injective htu]
  exact ⟨rfl, hrest⟩

/-- An item is followed by a comma or by what closes its list. -/
private theorem stops_mark {c : Char} (hc : c = ',' ∨ c = ']' ∨ c = '\x7d') (r : List Char) :
    Stops (c :: r) := by
  refine stops_cons ?_ r
  rcases hc with rfl | rfl | rfl <;> simp [IsNumberChar, Char.isDigit]

/-- Each element of one list has its counterpart in the other. -/
private theorem exists_of_forall₂ {α : Type} {R : α → α → Prop} {xs ys : List α}
    (h : List.Forall₂ R xs ys) {x : α} (hx : x ∈ xs) : ∃ y ∈ ys, R x y := by
  induction h with
  | nil => cases hx
  | @cons a b xs ys hab _ ih =>
    rcases List.mem_cons.mp hx with rfl | hx
    · exact ⟨b, List.mem_cons_self, hab⟩
    · obtain ⟨y, hy, hxy⟩ := ih hx
      exact ⟨y, List.mem_cons_of_mem b hy, hxy⟩

/-- **Reading a value.** The value at the front of a text is determined up to the order of keys,
and so is the text after it. -/
theorem text_read {v w : Value} (hv : v.WellFormed) (hw : w.WellFormed) {r s : List Char}
    (hr : Stops r) (hs : Stops s) (h : v.text ++ r = w.text ++ s) : v.Same w ∧ r = s := by
  have hshape := shape_eq_of_text hv hw h
  induction v using Value.induction generalizing w r s with
  | null =>
    obtain rfl : w = .null := match w, hshape with
      | .null, _ => rfl
    exact ⟨by rw [Same], List.append_cancel_left h⟩
  | bool b =>
    obtain ⟨c, rfl⟩ : ∃ c, w = .bool c := match w, hshape with
      | .bool c, _ => ⟨c, rfl⟩
    obtain rfl : b = c := by
      revert h
      cases b <;> cases c <;> simp [text, canonicalJson]
    exact ⟨by rw [Same], List.append_cancel_left h⟩
  | int n =>
    obtain ⟨hnumber, hrest⟩ := number_read hv hw rfl hr hs h
    exact ⟨by rw [Same, hnumber], hrest⟩
  | float t =>
    obtain ⟨hnumber, hrest⟩ := number_read hv hw rfl hr hs h
    exact ⟨by rw [Same, hnumber], hrest⟩
  | str t =>
    obtain ⟨u, rfl⟩ : ∃ u, w = .str u := match w, hshape with
      | .str u, _ => ⟨u, rfl⟩
    simp only [text, canonicalJson] at h
    obtain ⟨rfl, hrest⟩ := quote_read h
    exact ⟨by rw [Same], hrest⟩
  | arr vs ih =>
    obtain ⟨ws, rfl⟩ : ∃ ws, w = .arr ws := match w, hshape with
      | .arr ws, _ => ⟨ws, rfl⟩
    have hvs := wellFormed_arr.mp hv
    have hws := wellFormed_arr.mp hw
    simp only [text_arr, List.cons_append, List.append_assoc, List.nil_append, List.cons.injEq,
      true_and] at h
    have hopens {u : Value} (hu : u.WellFormed) : OpensOther ']' u.text := by
      obtain ⟨c, r, htext, -, hc⟩ := text_opens hu
      exact ⟨c, r, htext, hc⟩
    obtain ⟨hitems, hrest⟩ := @intercalate_read _ _ text Same Stops ',' ']' (by decide)
      (stops_mark (.inl rfl)) (stops_mark (.inr (.inl rfl))) vs ws (fun u hu => hopens (hvs u hu))
      (fun u hu => hopens (hws u hu)) (fun v hv w hw r s hr hs h => ih v hv (hvs v hv) (hws w hw)
        hr hs h (shape_eq_of_text (hvs v hv) (hws w hw) h)) r s h
    exact ⟨same_arr.mpr hitems, hrest⟩
  | obj ms ih =>
    obtain ⟨ns, rfl⟩ : ∃ ns, w = .obj ns := match w, hshape with
      | .obj ns, _ => ⟨ns, rfl⟩
    obtain ⟨-, hms⟩ := wellFormed_obj.mp hv
    obtain ⟨-, hns⟩ := wellFormed_obj.mp hw
    simp only [text_obj, List.cons_append, List.append_assoc, List.nil_append, List.cons.injEq,
      true_and] at h
    have hopens (m : String × Value) : OpensOther '\x7d' (memberText m) := by
      rw [memberText, toList_quote]
      exact ⟨'"', _, rfl, by decide⟩
    have hmember (m : String × Value) (hm : m ∈ byKey ms) (n : String × Value) (hn : n ∈ byKey ns)
        (r s : List Char) (hr : Stops r) (hs : Stops s)
        (h : memberText m ++ r = memberText n ++ s) : (m.1 = n.1 ∧ m.2.Same n.2) ∧ r = s := by
      rw [mem_byKey] at hm hn
      simp only [memberText, List.append_assoc, List.cons_append] at h
      obtain ⟨hkey, hvalue⟩ := quote_read h
      have htext := (List.cons.inj hvalue).2
      obtain ⟨hsame, hrest⟩ := ih m hm (hms m hm) (hns n hn) hr hs htext
        (shape_eq_of_text (hms m hm) (hns n hn) htext)
      exact ⟨⟨hkey, hsame⟩, hrest⟩
    obtain ⟨hmembers, hrest⟩ := @intercalate_read _ _ memberText
      (fun m n => m.1 = n.1 ∧ m.2.Same n.2) Stops ',' '\x7d' (by decide)
      (stops_mark (.inl rfl)) (stops_mark (.inr (.inr rfl))) (byKey ms) (byKey ns)
      (fun m _ => hopens m) (fun n _ => hopens n) hmember r s h
    refine ⟨same_obj.mpr ⟨?_, ?_⟩, hrest⟩
    · intro m hm
      obtain ⟨n, hn, hkey, hsame⟩ := exists_of_forall₂ hmembers (mem_byKey.mpr hm)
      exact ⟨n.2, by rwa [hkey, ← mem_byKey], hsame⟩
    · intro k hk
      obtain ⟨n, hn, rfl⟩ := List.mem_map.mp hk
      obtain ⟨m, hm, hkey, -⟩ := exists_of_forall₂ hmembers.flip (mem_byKey.mpr hn)
      exact List.mem_map.mpr ⟨m, mem_byKey.mp hm, hkey⟩

/-! ### The same value has the same text -/

/-- Sorting by key leaves no choice, for the keys are distinct. -/
private theorem byKey_eq_of_perm {ms ns : List (String × String)}
    (hms : (ms.map Prod.fst).Nodup) (hperm : ms.Perm ns) :
    ms.mergeSort (fun a b => decide (a.1 ≤ b.1)) =
      ns.mergeSort fun a b => decide (a.1 ≤ b.1) := by
  have htrans (a b c : String × String) (hab : decide (a.1 ≤ b.1) = true)
      (hbc : decide (b.1 ≤ c.1) = true) : decide (a.1 ≤ c.1) = true := by
    rw [decide_eq_true_eq] at hab hbc ⊢
    exact le_trans hab hbc
  have htotal (a b : String × String) : (decide (a.1 ≤ b.1) || decide (b.1 ≤ a.1)) = true := by
    simpa using le_total a.1 b.1
  have hsorts (l : List (String × String)) := List.pairwise_mergeSort htrans htotal l
  refine List.Perm.eq_of_pairwise ?_ (hsorts ms) (hsorts ns)
    ((List.mergeSort_perm ms _).trans (hperm.trans (List.mergeSort_perm ns _).symm))
  intro a b ha hb hab hba
  rw [decide_eq_true_eq] at hab hba
  rw [List.mem_mergeSort] at ha hb
  exact List.inj_on_of_nodup_map hms ha (hperm.mem_iff.mpr hb) (le_antisymm hab hba)

private theorem map_eq_of_forall₂ {α β : Type} {R : α → α → Prop} {f : α → β} {xs ys : List α}
    (h : List.Forall₂ R xs ys) (hf : ∀ x ∈ xs, ∀ y ∈ ys, R x y → f x = f y) :
    xs.map f = ys.map f := by
  induction h with
  | nil => rfl
  | @cons a b xs ys hab _ ih =>
    have hhead : f a = f b := hf a List.mem_cons_self b List.mem_cons_self hab
    have htail := ih fun x hx y hy =>
      hf x (List.mem_cons_of_mem a hx) y (List.mem_cons_of_mem b hy)
    rw [List.map_cons, List.map_cons, hhead, htail]

/-- Values that are the same up to the order of keys are printed alike. -/
theorem canonicalJson_eq_of_same {v w : Value} (hv : v.WellFormed) (hw : w.WellFormed)
    (h : v.Same w) : v.canonicalJson = w.canonicalJson := by
  have hnumber {v w : Value} {t : String} (hv : v.numberText = some t)
      (hw : w.numberText = some t) : v.canonicalJson = w.canonicalJson :=
    String.toList_injective ((text_of_numberText hv).trans (text_of_numberText hw).symm)
  induction v using Value.induction generalizing w with
  | null =>
    rw [Same] at h
    rw [h]
  | bool b =>
    rw [Same] at h
    rw [h]
  | int n =>
    rw [Same] at h
    exact hnumber rfl h
  | float t =>
    rw [Same] at h
    exact hnumber rfl h
  | str s =>
    rw [Same] at h
    rw [h]
  | arr vs ih =>
    obtain ⟨ws, rfl⟩ : ∃ ws, w = .arr ws := by
      cases w <;> simp only [Same] at h
      exact ⟨_, rfl⟩
    have hvs := wellFormed_arr.mp hv
    have hws := wellFormed_arr.mp hw
    have hitems : vs.map canonicalJson = ws.map canonicalJson :=
      map_eq_of_forall₂ (same_arr.mp h) fun v hv w hw hsame =>
        ih v hv (hvs v hv) (hws w hw) hsame
    rw [canonicalJson, canonicalJson, canonicalItems_eq, canonicalItems_eq, hitems]
  | obj ms ih =>
    obtain ⟨ns, rfl⟩ : ∃ ns, w = .obj ns := by
      cases w <;> simp only [Same] at h
      exact ⟨_, rfl⟩
    obtain ⟨hkeys, hms⟩ := wellFormed_obj.mp hv
    obtain ⟨hkeys', hns⟩ := wellFormed_obj.mp hw
    obtain ⟨hmembers, hsub⟩ := same_obj.mp h
    have hfst (l : List (String × Value)) :
        (canonicalMembers l).map Prod.fst = l.map Prod.fst := by
      rw [canonicalMembers_eq, List.map_map]
      rfl
    have hnodup : ((canonicalMembers ms).map Prod.fst).Nodup := hfst ms ▸ hkeys
    have hnodup' : ((canonicalMembers ns).map Prod.fst).Nodup := hfst ns ▸ hkeys'
    have hperm : (canonicalMembers ms).Perm (canonicalMembers ns) := by
      rw [List.perm_ext_iff_of_nodup hnodup.of_map hnodup'.of_map, canonicalMembers_eq,
        canonicalMembers_eq]
      refine fun p => ⟨fun hp => ?_, fun hp => ?_⟩
      · obtain ⟨m, hm, rfl⟩ := List.mem_map.mp hp
        obtain ⟨w, hw, hsame⟩ := hmembers m hm
        exact List.mem_map.mpr ⟨(m.1, w), hw, by rw [ih m hm (hms m hm) (hns _ hw) hsame]⟩
      · obtain ⟨n, hn, rfl⟩ := List.mem_map.mp hp
        obtain ⟨m, hm, hkey⟩ := List.mem_map.mp (hsub n.1 (List.mem_map_of_mem hn))
        obtain ⟨w, hw, hsame⟩ := hmembers m hm
        -- the counterpart is `n`, for no other member has its key
        obtain rfl : (m.1, w) = n := List.inj_on_of_nodup_map hkeys' hw hn hkey
        exact List.mem_map.mpr ⟨m, hm, by rw [ih m hm (hms m hm) (hns _ hw) hsame]⟩
    rw [canonicalJson, canonicalJson, byKey_eq_of_perm hnodup hperm]

/-- **Canonical JSON is exact.** Two values are rendered alike exactly if they are the same up to
the order of keys. -/
theorem canonicalJson_eq_iff {v w : Value} (hv : v.WellFormed) (hw : w.WellFormed) :
    v.canonicalJson = w.canonicalJson ↔ v.Same w := by
  refine ⟨fun h => ?_, canonicalJson_eq_of_same hv hw⟩
  have hstops : Stops [] := by simp [Stops]
  exact (text_read hv hw hstops hstops (by rw [text, text, h])).1

end Sysknife.Value
