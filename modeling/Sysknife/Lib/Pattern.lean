import Mathlib.Algebra.GroupWithZero.Nat
import Mathlib.Data.List.Basic
import Mathlib.Data.List.Infix

/-!
# Patterns over text

The fragment of regular expressions that input checks are written in: character classes with
bounded or unbounded repetition, literals, sequence, alternative and option. A pattern is
matched against a whole text (`fullmatch`), so matching is membership in a language and how a
backtracking engine finds the match does not matter.

`Text` has the string operations such checks use, on the characters of a string: searching,
splitting, lower-casing ASCII letters, and the length in UTF-8 bytes, which for ASCII text is
the number of characters.

A class is a predicate on characters; most are `alnumOr`, the ASCII letters and digits with a
few more characters. What checks are usually asked for, a first character from one class and
further ones, bounded or not, from another, is `fullmatch_one_seq_rep`.
-/

/-- Patterns. -/
inductive Pattern
  /-- `[…]` -/
  | one (p : Char → Bool)
  /-- `[…]{least,most}`, and `[…]*` or `[…]+` without an upper bound. -/
  | rep (p : Char → Bool) (least : ℕ) (most : Option ℕ)
  | lit (text : String)
  | seq (r s : Pattern)
  /-- `r|s` -/
  | alt (r s : Pattern)
  /-- `r?` -/
  | opt (r : Pattern)

namespace Pattern

/-- Does the whole text match? -/
@[grind =]
def fullmatch : Pattern → List Char → Bool
  | .one p, text =>
    match text with
    | [c] => p c
    | _ => false
  | .rep p least most, text =>
    text.all p && decide (least ≤ text.length) && most.all fun n => decide (text.length ≤ n)
  | .lit t, text => text == t.toList
  | .seq r s, text => (List.range (text.length + 1)).any fun k =>
    r.fullmatch (text.take k) && s.fullmatch (text.drop k)
  | .alt r s, text => r.fullmatch text || s.fullmatch text
  | .opt r, text => text.isEmpty || r.fullmatch text

variable {p q : Char → Bool} {r s : Pattern} {text : List Char}

theorem fullmatch_one : (one p).fullmatch text = true ↔ ∃ c, text = [c] ∧ p c = true := by
  rcases text with _ | ⟨c, _ | ⟨d, cs⟩⟩ <;> simp [fullmatch]

theorem fullmatch_rep {least : ℕ} {most : Option ℕ} :
    (rep p least most).fullmatch text = true ↔
      (∀ c ∈ text, p c = true) ∧ least ≤ text.length ∧ ∀ n ∈ most, text.length ≤ n := by
  cases most <;> simp [fullmatch, and_assoc]

/-- `[…]*` -/
theorem fullmatch_star : (rep p 0 none).fullmatch text = true ↔ ∀ c ∈ text, p c = true := by
  simp [fullmatch_rep]

/-- `[…]+` -/
theorem fullmatch_plus :
    (rep p 1 none).fullmatch text = true ↔ text ≠ [] ∧ ∀ c ∈ text, p c = true := by
  rw [fullmatch_rep, ← List.length_pos_iff, Nat.succ_le_iff]
  simp [and_comm]

theorem fullmatch_lit {t : String} : (lit t).fullmatch text = true ↔ text = t.toList := by
  simp [fullmatch]

theorem fullmatch_alt :
    (alt r s).fullmatch text = true ↔ r.fullmatch text = true ∨ s.fullmatch text = true := by
  simp [fullmatch]

theorem fullmatch_opt :
    (opt r).fullmatch text = true ↔ text = [] ∨ r.fullmatch text = true := by
  simp [fullmatch]

/-- A sequence matches what splits into two matches. -/
theorem fullmatch_seq :
    (seq r s).fullmatch text = true ↔
      ∃ a b, text = a ++ b ∧ r.fullmatch a = true ∧ s.fullmatch b = true := by
  simp only [fullmatch, List.any_eq_true, List.mem_range, Bool.and_eq_true]
  constructor
  · rintro ⟨k, -, hr, hs⟩
    exact ⟨text.take k, text.drop k, (List.take_append_drop k text).symm, hr, hs⟩
  · rintro ⟨a, b, rfl, hr, hs⟩
    refine ⟨a.length, ?_, ?_, ?_⟩
    · rw [List.length_append]
      omega
    · rwa [List.take_left]
    · rwa [List.drop_left]

theorem fullmatch_one_seq :
    (seq (one p) s).fullmatch text = true ↔
      ∃ c cs, text = c :: cs ∧ p c = true ∧ s.fullmatch cs = true := by
  rw [fullmatch_seq]
  constructor
  · rintro ⟨a, b, rfl, ha, hb⟩
    obtain ⟨c, rfl, hc⟩ := fullmatch_one.mp ha
    exact ⟨c, b, rfl, hc, hb⟩
  · rintro ⟨c, cs, rfl, hc, hs⟩
    exact ⟨[c], cs, rfl, fullmatch_one.mpr ⟨c, rfl, hc⟩, hs⟩

theorem fullmatch_lit_seq {t : String} :
    (seq (lit t) s).fullmatch text = true ↔
      ∃ cs, text = t.toList ++ cs ∧ s.fullmatch cs = true := by
  rw [fullmatch_seq]
  constructor
  · rintro ⟨a, b, rfl, ha, hb⟩
    rw [fullmatch_lit.mp ha]
    exact ⟨b, rfl, hb⟩
  · rintro ⟨cs, rfl, hs⟩
    exact ⟨t.toList, cs, rfl, fullmatch_lit.mpr rfl, hs⟩

theorem fullmatch_opt_seq :
    (seq (opt r) s).fullmatch text = true ↔
      s.fullmatch text = true ∨ (seq r s).fullmatch text = true := by
  rw [fullmatch_seq, fullmatch_seq]
  constructor
  · rintro ⟨a, b, rfl, ha, hb⟩
    rcases fullmatch_opt.mp ha with rfl | ha
    · exact .inl hb
    · exact .inr ⟨a, b, rfl, ha, hb⟩
  · rintro (h | ⟨a, b, rfl, ha, hb⟩)
    · exact ⟨[], text, rfl, fullmatch_opt.mpr (.inl rfl), h⟩
    · exact ⟨a, b, rfl, fullmatch_opt.mpr (.inr ha), hb⟩

/-- A first character from the class `p`, then further ones from the larger class `q`. -/
theorem fullmatch_one_seq_rep {most : Option ℕ} (hpq : ∀ c, p c = true → q c = true) :
    (seq (one p) (rep q 0 most)).fullmatch text = true ↔
      text.head?.any p = true ∧ (∀ c ∈ text, q c = true) ∧ ∀ n ∈ most, text.length ≤ n + 1 := by
  rw [fullmatch_one_seq]
  constructor
  · rintro ⟨c, cs, rfl, hc, hs⟩
    obtain ⟨hall, -, hlen⟩ := fullmatch_rep.mp hs
    refine ⟨by simpa using hc, by simpa [hpq c hc] using hall, fun n hn => ?_⟩
    have := hlen n hn
    simpa using this
  · rintro ⟨hhead, hall, hlen⟩
    cases text with
    | nil => simp at hhead
    | cons c cs =>
      refine ⟨c, cs, rfl, by simpa using hhead, ?_⟩
      refine fullmatch_rep.mpr ⟨fun d hd => hall d (List.mem_cons_of_mem c hd), Nat.zero_le _, ?_⟩
      intro n hn
      have := hlen n hn
      simpa using this

end Pattern

/-! ### Character classes -/

/-- `[A-Za-z0-9…]`: the ASCII letters and digits, and the characters listed. -/
def alnumOr (extra : String) (c : Char) : Bool := c.isAlphanum || extra.toList.contains c

/-- `[a-z0-9…]` -/
def lowerAlnumOr (extra : String) (c : Char) : Bool :=
  c.isLower || c.isDigit || extra.toList.contains c

theorem alnumOr_iff {extra : String} {c : Char} :
    alnumOr extra c = true ↔ c.isAlphanum = true ∨ c ∈ extra.toList := by
  simp [alnumOr]

/-- The order in which a class lists its characters does not matter. -/
theorem alnumOr_congr {e f : String} (h : e.toList ⊆ f.toList) (h' : f.toList ⊆ e.toList) :
    alnumOr e = alnumOr f := by
  funext c
  rw [Bool.eq_iff_iff, alnumOr_iff, alnumOr_iff]
  exact or_congr_right ⟨fun hc => h hc, fun hc => h' hc⟩

theorem isUpper_eq (c : Char) : c.isUpper = decide (c.val ≥ 'A'.val ∧ c.val ≤ 'Z'.val) := rfl

theorem isLower_eq (c : Char) :
    c.isLower = (decide (c.val ≥ 'a'.val) && decide (c.val ≤ 'z'.val)) := rfl

theorem isAlpha_eq (c : Char) : c.isAlpha = (c.isUpper || c.isLower) := rfl

theorem utf8Size_of_le {c : Char} (h : c.val.toNat ≤ 127) : c.utf8Size = 1 := by
  have hval : c.val ≤ UInt32.ofNatLT 127 (by decide) := UInt32.le_iff_toNat_le.mpr h
  rw [Char.utf8Size, if_pos hval]

theorem toNat_of_isAlphanum {c : Char} (h : c.isAlphanum = true) :
    (48 ≤ c.toNat ∧ c.toNat ≤ 57) ∨ (65 ≤ c.toNat ∧ c.toNat ≤ 90) ∨
      (97 ≤ c.toNat ∧ c.toNat ≤ 122) := by
  have hA : 'A'.val.toNat = 65 := rfl
  have hZ : 'Z'.val.toNat = 90 := rfl
  have ha : 'a'.val.toNat = 97 := rfl
  have hz : 'z'.val.toNat = 122 := rfl
  have h0 : '0'.val.toNat = 48 := rfl
  have h9 : '9'.val.toNat = 57 := rfl
  have hval : c.toNat = c.val.toNat := rfl
  simp only [Char.isAlphanum, isAlpha_eq, isUpper_eq, isLower_eq, Char.isDigit,
    Bool.or_eq_true, Bool.and_eq_true, decide_eq_true_eq, UInt32.le_iff_toNat_le, ge_iff_le] at h
  omega

theorem utf8Size_of_isAlphanum {c : Char} (h : c.isAlphanum = true) : c.utf8Size = 1 := by
  have hrange := toNat_of_isAlphanum h
  have hval : c.toNat = c.val.toNat := rfl
  refine utf8Size_of_le ?_
  omega

/-- What no character of a list is, none of them is. -/
theorem eq_false_of_any {l : List Char} {p : Char → Bool} {c : Char} (h : l.any p = false)
    (hc : c ∈ l) : p c = false := by
  rw [List.any_eq_false] at h
  exact Bool.eq_false_iff.mpr (h c hc)

theorem not_isAlpha_of_isDigit {c : Char} (h : c.isDigit = true) : ¬c.isAlpha = true := by
  have hA : 'A'.val.toNat = 65 := rfl
  have ha : 'a'.val.toNat = 97 := rfl
  have h9 : '9'.val.toNat = 57 := rfl
  simp only [isAlpha_eq, isUpper_eq, isLower_eq, Char.isDigit, Bool.or_eq_true,
    Bool.and_eq_true, decide_eq_true_eq, UInt32.le_iff_toNat_le, ge_iff_le] at h ⊢
  omega

/-! ### Text -/

namespace Text

/-- `s.starts_with(needle)` -/
def startsWith (needle s : String) : Bool := needle.toList.isPrefixOf s.toList

/-- `s.ends_with(needle)` -/
def endsWith (needle s : String) : Bool := needle.toList.isSuffixOf s.toList

/-- `s.contains(needle)` -/
def contains (needle s : String) : Bool := decide (needle.toList <:+: s.toList)

/-- Length in UTF-8 bytes. -/
def byteLen (s : String) : ℕ := (s.toList.map Char.utf8Size).sum

/-- ASCII letters in lower case. -/
def lower (s : String) : String := String.ofList (s.toList.map Char.toLower)

/-- The pieces between separators; there is always at least one. -/
def split (separator : Char) (s : String) : List String :=
  (s.toList.splitOnP (· == separator)).map String.ofList

/-- The text without a suffix it has. -/
def stripSuffix (suffix s : String) : Option String :=
  if endsWith suffix s then some (String.ofList (s.toList.take (s.toList.length - suffix.length)))
  else none

/-- The text without a beginning it has. -/
def stripStart (start s : String) : Option String :=
  if startsWith start s then some (String.ofList (s.toList.drop start.length)) else none

/-- What stands before and after the first occurrence of `needle`. -/
def splitOnce (needle s : String) : Option (String × String) :=
  ((List.range (s.toList.length + 1)).find? fun k =>
    needle.toList.isPrefixOf (s.toList.drop k)).map fun k =>
      (String.ofList (s.toList.take k), String.ofList (s.toList.drop (k + needle.length)))

theorem startsWith_iff {needle s : String} :
    startsWith needle s = true ↔ ∃ rest, s.toList = needle.toList ++ rest := by
  rw [startsWith, List.isPrefixOf_iff_prefix]
  exact exists_congr fun rest => eq_comm

theorem stripStart_eq_some {start s t : String} :
    stripStart start s = some t ↔ s.toList = start.toList ++ t.toList := by
  unfold stripStart
  by_cases h : startsWith start s = true
  · obtain ⟨rest, hrest⟩ := startsWith_iff.mp h
    rw [if_pos h, hrest, ← String.length_toList, List.drop_left, Option.some.injEq,
      List.append_cancel_left_eq]
    constructor
    · rintro rfl
      rw [String.toList_ofList]
    · intro heq
      rw [heq, String.ofList_toList]
  · rw [if_neg h]
    refine ⟨fun hnone => absurd hnone (by simp), fun heq => ?_⟩
    exact absurd (startsWith_iff.mpr ⟨_, heq⟩) h

theorem stripStart_eq_none {start s : String} (h : startsWith start s = false) :
    stripStart start s = none := by
  rw [stripStart, h]
  rfl

/-- A text is cut at the first place where the needle stands. -/
theorem splitOnce_eq_some {needle s a b : String} :
    splitOnce needle s = some (a, b) ↔
      s.toList = a.toList ++ (needle.toList ++ b.toList) ∧
        ∀ k < a.toList.length, ¬needle.toList <+: s.toList.drop k := by
  simp only [splitOnce, Option.map_eq_some_iff, Prod.mk.injEq, List.find?_range_eq_some,
    List.mem_range, List.isPrefixOf_iff_prefix, Bool.not_eq_true', ← Bool.not_eq_true]
  constructor
  · rintro ⟨k, ⟨⟨rest, hrest⟩, hk, hfirst⟩, rfl, rfl⟩
    have hlen : (s.toList.take k).length = k := by
      rw [List.length_take]
      omega
    refine ⟨?_, fun i hi => hfirst i ?_⟩
    · have hdrop : s.toList.drop (k + needle.length) = rest := by
        rw [← List.drop_drop, ← hrest, ← String.length_toList, List.drop_left]
      rw [String.toList_ofList, String.toList_ofList, hdrop, hrest, List.take_append_drop]
    · rw [String.toList_ofList, hlen] at hi
      exact hi
  · rintro ⟨heq, hfirst⟩
    refine ⟨a.toList.length, ⟨?_, ?_, fun i hi => hfirst i hi⟩, ?_, ?_⟩
    · rw [heq, List.drop_left]
      exact ⟨b.toList, rfl⟩
    · rw [heq, List.length_append]
      omega
    · rw [heq, List.take_left, String.ofList_toList]
    · rw [heq, ← List.drop_drop, List.drop_left, ← String.length_toList, List.drop_left,
        String.ofList_toList]

theorem splitOnce_eq_none {needle s : String} :
    splitOnce needle s = none ↔ ¬needle.toList <:+: s.toList := by
  simp only [splitOnce, Option.map_eq_none_iff, List.find?_range_eq_none, Bool.not_eq_true',
    ← Bool.not_eq_true, List.isPrefixOf_iff_prefix]
  constructor
  · rintro h ⟨a, b, hab⟩
    refine h a.length ?_ ⟨b, ?_⟩
    · rw [← hab, List.length_append, List.length_append]
      omega
    · rw [← hab, List.append_assoc, List.drop_left]
  · rintro h k - hk
    exact h (hk.isInfix.trans (List.drop_suffix k _).isInfix)

/-- A text is not cut at a needle with a character the text does not have. -/
theorem splitOnce_none_of_notMem {needle s : String} {c : Char} (hc : c ∈ needle.toList)
    (hs : c ∉ s.toList) : splitOnce needle s = none :=
  splitOnce_eq_none.mpr fun h => hs (h.subset hc)

/-- A text is cut at the first occurrence of the needle's first character. -/
theorem splitOnce_of_notMem {needle s : String} {c : Char} {l a b : List Char}
    (hn : needle.toList = c :: l) (hs : s.toList = a ++ (c :: l ++ b)) (ha : c ∉ a) :
    splitOnce needle s = some (String.ofList a, String.ofList b) := by
  refine splitOnce_eq_some.mpr ⟨?_, fun k hk hprefix => ?_⟩
  · rw [String.toList_ofList, String.toList_ofList, hn, hs]
  · rw [String.toList_ofList] at hk
    rw [hn, hs, List.drop_append_of_le_length hk.le, List.cons_append] at hprefix
    obtain ⟨rest, hrest⟩ := hprefix
    have hcons : (a.drop k) ≠ [] := by simpa using hk
    obtain ⟨x, xs, hx⟩ := List.exists_cons_of_ne_nil hcons
    rw [hx] at hrest
    have hcx : c = x := by simpa using congrArg List.head? hrest
    have : x ∈ a.drop k := by simp [hx]
    exact ha (hcx ▸ List.mem_of_mem_drop this)

theorem byteLen_of_ascii {s : String} (h : ∀ c ∈ s.toList, c.utf8Size = 1) :
    byteLen s = s.toList.length := by
  unfold byteLen
  generalize s.toList = l at h
  induction l with
  | nil => rfl
  | cons c l ih =>
    have hc := h c List.mem_cons_self
    have ih := ih fun d hd => h d (List.mem_cons_of_mem c hd)
    rw [List.map_cons, List.sum_cons, hc, ih, List.length_cons]
    omega

theorem length_le_byteLen (s : String) : s.toList.length ≤ byteLen s := by
  unfold byteLen
  generalize s.toList = l
  induction l with
  | nil => rfl
  | cons c l ih =>
    have hc : 0 < c.utf8Size := Char.utf8Size_pos c
    rw [List.map_cons, List.sum_cons, List.length_cons]
    omega

/-! #### Splitting and joining -/

theorem split_eq (separator : Char) (s : String) :
    split separator s = (s.toList.splitOn separator).map String.ofList := by
  rw [split, List.splitOn_eq_splitOnP]

theorem infix_intercalate {s l : List Char} {ls : List (List Char)} (h : l ∈ ls) :
    l <:+: s.intercalate ls := by
  induction ls with
  | nil => cases h
  | cons a ls ih =>
    cases ls with
    | nil =>
      rw [List.mem_singleton.mp h, List.intercalate_singleton]
    | cons b ls =>
      rw [List.intercalate_cons_cons]
      rcases List.mem_cons.mp h with rfl | h
      · exact ⟨[], s ++ s.intercalate (b :: ls), by simp⟩
      · exact (ih h).trans (List.suffix_append _ _).isInfix

theorem mem_intercalate {sep : List Char} {ls : List (List Char)} {c : Char}
    (h : c ∈ sep.intercalate ls) : c ∈ sep ∨ ∃ l ∈ ls, c ∈ l := by
  induction ls with
  | nil => cases h
  | cons a ls ih =>
    cases ls with
    | nil =>
      rw [List.intercalate_singleton] at h
      exact .inr ⟨a, List.mem_singleton_self a, h⟩
    | cons b ls =>
      rw [List.intercalate_cons_cons, List.mem_append, List.mem_append] at h
      rcases h with (h | h) | h
      · exact .inr ⟨a, List.mem_cons_self, h⟩
      · exact .inl h
      · rcases ih h with h | ⟨l, hl, hc⟩
        · exact .inl h
        · exact .inr ⟨l, List.mem_cons_of_mem a hl, hc⟩

theorem intercalate_concat {sep w : List Char} {ls : List (List Char)} :
    sep.intercalate (ls ++ [w]) = (if ls = [] then [] else sep.intercalate ls ++ sep) ++ w := by
  induction ls with
  | nil => simp
  | cons a ls ih =>
    have hne : ls ++ [w] ≠ [] := List.append_ne_nil_of_right_ne_nil _ (List.cons_ne_nil _ _)
    rw [List.cons_append, List.intercalate_cons_of_ne_nil hne, ih, if_neg (List.cons_ne_nil _ _)]
    by_cases hnil : ls = []
    · simp [hnil]
    · rw [if_neg hnil, List.intercalate_cons_of_ne_nil hnil]
      simp [List.append_assoc]

theorem filter_intercalate {p : Char → Bool} {c : Char} {ls : List (List Char)} (h : p c = false) :
    ([c].intercalate ls).filter p = ls.flatMap (List.filter p) := by
  induction ls with
  | nil => rfl
  | cons a ls ih =>
    by_cases hnil : ls = []
    · simp [hnil]
    · rw [List.intercalate_cons_of_ne_nil hnil, List.filter_append, List.filter_append, ih,
        List.flatMap_cons]
      simp [h]

/-- A character that is no separator goes to the last piece. -/
theorem exists_splitOnP_concat {p : Char → Bool} {f : List Char} {c : Char} (hc : p c = false) :
    ∃ init w, f.splitOnP p = init ++ [w] ∧ (f ++ [c]).splitOnP p = init ++ [w ++ [c]] := by
  induction f with
  | nil =>
    refine ⟨[], [], by simp, ?_⟩
    rw [List.nil_append, List.splitOnP_eq_singleton (by simpa using hc)]
    rfl
  | cons x f ih =>
    obtain ⟨init, w, hf, hfc⟩ := ih
    rw [List.cons_append, List.splitOnP_cons_eq_if_modifyHead, List.splitOnP_cons_eq_if_modifyHead,
      hf, hfc]
    by_cases hx : p x = true
    · exact ⟨[] :: init, w, by rw [if_pos hx]; rfl, by rw [if_pos hx]; rfl⟩
    · rw [if_neg hx, if_neg hx]
      cases init with
      | nil => exact ⟨[], x :: w, rfl, rfl⟩
      | cons a init => exact ⟨(x :: a) :: init, w, rfl, rfl⟩

/-- A beginning without a character ends before the first one of it. -/
theorem isPrefix_of_notMem {l x y : List Char} {c : Char} (hl : c ∉ l) (h : l <+: x ++ c :: y) :
    l <+: x := by
  obtain ⟨z, hz⟩ := h
  rcases List.append_eq_append_iff.mp hz with ⟨a, rfl, -⟩ | ⟨a, rfl, ha⟩
  · exact List.prefix_append l a
  · cases a with
    | nil => exact (List.append_nil x).symm ▸ List.prefix_refl x
    | cons d a =>
      obtain ⟨rfl, -⟩ := List.cons.inj ha
      exact absurd (List.mem_append_right x List.mem_cons_self) hl

/-- A piece is a part of the text. -/
theorem infix_of_mem_split {separator : Char} {s p : String} (h : p ∈ split separator s) :
    p.toList <:+: s.toList := by
  rw [split_eq, List.mem_map] at h
  obtain ⟨l, hl, rfl⟩ := h
  have := infix_intercalate (s := [separator]) hl
  rwa [List.intercalate_splitOn, ← String.toList_ofList (l := l)] at this

theorem separator_notMem_splitOn {separator : Char} {text : List Char} :
    ∀ l ∈ text.splitOn separator, separator ∉ l := by
  induction text with
  | nil =>
    intro l hl
    have hnil : l = [] := by simpa using hl
    rw [hnil]
    exact List.not_mem_nil
  | cons c cs ih =>
    intro l hl
    rw [List.splitOn_cons_eq_if_modifyHead] at hl
    split at hl
    · rcases List.mem_cons.mp hl with rfl | hl
      · exact List.not_mem_nil
      · exact ih l hl
    · rename_i hc
      obtain ⟨a, rest, hrest⟩ := List.exists_cons_of_ne_nil (List.splitOn_ne_nil separator cs)
      rw [hrest, List.modifyHead_cons] at hl
      rcases List.mem_cons.mp hl with rfl | hl
      · have ha := ih a (by simp [hrest])
        simp only [beq_iff_eq] at hc
        simp [ha, Ne.symm hc]
      · exact ih l (by simp [hrest, hl])

theorem separator_notMem_of_mem_split {separator : Char} {s p : String}
    (h : p ∈ split separator s) : separator ∉ p.toList := by
  rw [split_eq, List.mem_map] at h
  obtain ⟨l, hl, rfl⟩ := h
  rw [String.toList_ofList]
  exact separator_notMem_splitOn l hl

/-- The first piece begins as the text does. -/
theorem exists_mem_split {x c : Char} {s : String} (h : s.toList.head? = some c)
    (hc : c ≠ x) : ∃ p ∈ split x s, p.toList.head? = some c := by
  obtain ⟨cs, hcs⟩ : ∃ cs, s.toList = c :: cs := by
    cases hs : s.toList with
    | nil => simp [hs] at h
    | cons d cs =>
      rw [hs, List.head?_cons, Option.some.injEq] at h
      exact ⟨cs, by rw [h]⟩
  obtain ⟨a, rest, hrest⟩ := List.exists_cons_of_ne_nil (List.splitOn_ne_nil x cs)
  refine ⟨String.ofList (c :: a), ?_, by simp⟩
  rw [split_eq, hcs, List.splitOn_cons_eq_if_modifyHead, if_neg (by simpa using hc), hrest,
    List.modifyHead_cons, List.map_cons]
  exact List.mem_cons_self

/-- Splitting what was joined. -/
theorem split_intercalate {separator : String} {c : Char} {l : List String}
    (hc : separator.toList = [c]) (hne : l ≠ []) (hl : ∀ p ∈ l, c ∉ p.toList) :
    split c (String.intercalate separator l) = l := by
  rw [split_eq, String.toList_intercalate, hc, List.splitOn_intercalate, List.map_map]
  · simp [Function.comp_def]
  · simpa using hl
  · simpa using hne

end Text
