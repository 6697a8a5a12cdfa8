import Mathlib.Data.List.TakeWhile
import Sysknife.Brain.ToolSecrets
import Sysknife.Lib.Pattern

/-!
# The value that a word labels, in two texts

The walk reads a text whose private keys are already replaced, so a word is followed by other
characters than in the text that came in. The functions that look for the value a word labels are
run on both texts side by side, at places where these go on alike.

* `Alike`: where two texts come apart, one goes on with a private key and the other with the marker.
* `Both`: two computations return, with values in a relation.
* `labelledRange_both`: a word that labels no value before the replacement labels none after it, and
  a labelled value stands after no letter and ends where no token goes on.
-/

namespace Sysknife.Brain

open Slices

/-! ### Texts that go on alike -/

/-- Two texts are the same up to a private key in the one and its marker in the other. -/
inductive Alike : List Char → List Char → Prop
  | nil : Alike [] []
  | apart (z z' : List Char) : Alike ('-' :: z) ('<' :: z')
  | cons (c : Char) {z z' : List Char} (h : Alike z z') : Alike (c :: z) (c :: z')

namespace Alike

variable {z z' : List Char} {p : Char → Bool}

theorem refl (z : List Char) : Alike z z := by
  induction z with
  | nil => exact .nil
  | cons c z ih => exact .cons c ih

theorem append (k : List Char) (h : Alike z z') : Alike (k ++ z) (k ++ z') := by
  induction k with
  | nil => exact h
  | cons c k ih => exact .cons c ih

/-- They open with the same characters, of those a private key and a marker do not open with. -/
theorem head (h : Alike z z') (hdash : p '-' = false) (hmark : p '<' = false) :
    z.head?.any p = z'.head?.any p := by
  cases h with
  | nil => rfl
  | apart z z' => simp [hdash, hmark]
  | cons c h => rfl

theorem takeWhile (h : Alike z z') (hdash : p '-' = false) (hmark : p '<' = false) :
    z.takeWhile p = z'.takeWhile p := by
  induction h with
  | nil => rfl
  | apart z z' => simp [hdash, hmark]
  | cons c h ih => simp only [List.takeWhile_cons, ih]

theorem dropWhile (h : Alike z z') (hdash : p '-' = false) (hmark : p '<' = false) :
    Alike (z.dropWhile p) (z'.dropWhile p) := by
  induction h with
  | nil => exact .nil
  | apart z z' => simpa [hdash, hmark] using Alike.apart z z'
  | cons c h ih =>
    simp only [List.dropWhile_cons]
    split_ifs
    · exact ih
    · exact .cons c h

theorem opens (h : Alike z z') {needle : String} (hdash : '-' ∉ needle.toList)
    (hmark : '<' ∉ needle.toList) : opens needle z = opens needle z' := by
  rw [Brain.opens, Brain.opens]
  generalize needle.toList = t at hdash hmark
  induction h generalizing t with
  | nil => rfl
  | apart z z' =>
    cases t with
    | nil => rfl
    | cons d t =>
      have hd : (d == '-') = false :=
        beq_false_of_ne fun heq => hdash (heq ▸ List.mem_cons_self)
      have hd' : (d == '<') = false :=
        beq_false_of_ne fun heq => hmark (heq ▸ List.mem_cons_self)
      simp [List.isPrefixOf, hd, hd']
  | cons c h ih =>
    cases t with
    | nil => rfl
    | cons d t =>
      have hrest := ih t (fun hd => hdash (List.mem_cons_of_mem _ hd))
        (fun hd => hmark (List.mem_cons_of_mem _ hd))
      simp [List.isPrefixOf, hrest]

end Alike

/-- Places of two texts from which on these are alike. -/
def Spot (raw mid : List Char) (i j : ℕ) : Prop :=
  ∃ a z a' z', raw = a ++ z ∧ mid = a' ++ z' ∧ size a = i ∧ size a' = j ∧ Alike z z'

theorem spot_refl {raw : List Char} {i : ℕ} (h : Boundary raw i) : Spot raw raw i i := by
  obtain ⟨a, z, rfl, rfl⟩ := h
  exact ⟨a, z, a, z, rfl, rfl, rfl, rfl, .refl z⟩

theorem Spot.boundary {raw mid : List Char} {i j : ℕ} (h : Spot raw mid i j) :
    Boundary raw i := by
  obtain ⟨a, z, a', z', rfl, rfl, rfl, rfl, -⟩ := h
  exact boundary_size_append a z

/-- No letter stands between two offsets. -/
def Gap (raw : List Char) (i j : ℕ) : Prop :=
  ∃ a g b, raw = a ++ (g ++ b) ∧ size a = i ∧ size a + size g = j ∧ ∀ c ∈ g, c.isAlpha = false

theorem gap_refl {raw : List Char} {i : ℕ} (h : Boundary raw i) : Gap raw i i := by
  obtain ⟨a, b, rfl, rfl⟩ := h
  exact ⟨a, [], b, rfl, rfl, rfl, by simp⟩

theorem Gap.trans {raw : List Char} {i j k : ℕ} (h : Gap raw i j) (h' : Gap raw j k) :
    Gap raw i k := by
  obtain ⟨a, g, b, rfl, rfl, rfl, hg⟩ := h
  obtain ⟨a', g', b', heq, ha', rfl, hg'⟩ := h'
  obtain ⟨rfl, rfl⟩ : a ++ g = a' ∧ b = g' ++ b' :=
    append_inj_of_size (by rw [List.append_assoc, heq]) (by rw [size_append, ha'])
  refine ⟨a, g ++ g', b', by simp, rfl, by simp [Nat.add_assoc], ?_⟩
  intro c hc
  rcases List.mem_append.mp hc with hc | hc
  · exact hg c hc
  · exact hg' c hc

theorem Gap.boundary {raw : List Char} {i j : ℕ} (h : Gap raw i j) : Boundary raw j := by
  obtain ⟨a, g, b, rfl, rfl, rfl, -⟩ := h
  exact ⟨a ++ g, b, by simp, size_append a g⟩

/-- A letter does not stand within a gap. -/
theorem Gap.le {raw b x : List Char} {c : Char} {i j : ℕ} (h : Gap raw i j)
    (hraw : raw = b ++ c :: x) (hc : c.isAlpha = true) (hi : i ≤ size b) : j ≤ size b := by
  obtain ⟨a, g, d, rfl, rfl, rfl, hg⟩ := h
  obtain ⟨m, rfl, hm⟩ := exists_append_of_size_le hraw hi
  rw [size_append]
  by_contra hlt
  obtain ⟨e, rfl, he⟩ := exists_append_of_size_le hm.symm (by omega)
  -- A letter within the gap would be one of its characters.
  cases e with
  | nil => simp at hlt
  | cons c' e =>
    obtain ⟨rfl, -⟩ := List.cons.inj he
    have hfalse := hg c (by simp)
    rw [hc] at hfalse
    cases hfalse

/-- No token goes on at an offset. -/
def AtStop (raw : List Char) (j : ℕ) : Prop :=
  ∃ a t, raw = a ++ t ∧ size a = j ∧ ∀ c ∈ t.head?, isTokenChar c = false

/-- A token that opens before the end of a value does not go on after it. -/
theorem AtStop.le {raw b x : List Char} {j : ℕ} (h : AtStop raw j) (hraw : raw = b ++ x)
    (hj : size b ≤ j) : size b + size (x.takeWhile isTokenChar) ≤ j := by
  obtain ⟨a, t, rfl, rfl, ht⟩ := h
  obtain ⟨m, rfl, rfl⟩ := exists_append_of_size_le hraw.symm hj
  have hstop : t.takeWhile isTokenChar = [] := by
    cases t with
    | nil => rfl
    | cons c t => exact List.takeWhile_cons_of_neg (by rw [ht c rfl]; exact Bool.false_ne_true)
  have hsize := congrArg size (List.takeWhile_append_dropWhile (p := isTokenChar) (l := m))
  rw [size_append] at hsize
  -- The token ends within the value, or with the value, since no token goes on after it.
  rw [List.takeWhile_append, size_append]
  split_ifs
  · simp [hstop]
  · omega

/-! ### Two computations side by side -/

/-- Both computations return, with values in the relation `R`. -/
def Both {α β : Type} (x : Except Panic α) (y : Except Panic β) (R : α → β → Prop) : Prop :=
  ∃ a b, x = .ok a ∧ y = .ok b ∧ R a b

theorem Both.ok {α β : Type} {R : α → β → Prop} {a : α} {b : β} (h : R a b) :
    Both (.ok a) (.ok b) R := ⟨a, b, rfl, rfl, h⟩

theorem Both.bind {α β γ δ : Type} {x : Except Panic α} {y : Except Panic β}
    {f : α → Except Panic γ} {g : β → Except Panic δ} {R : α → β → Prop} {S : γ → δ → Prop}
    (h : Both x y R) (hfg : ∀ a b, R a b → Both (f a) (g b) S) : Both (x >>= f) (y >>= g) S := by
  obtain ⟨a, b, rfl, rfl, hR⟩ := h
  exact hfg a b hR

theorem Both.mono {α β : Type} {x : Except Panic α} {y : Except Panic β} {R S : α → β → Prop}
    (h : Both x y R) (hRS : ∀ a b, R a b → S a b) : Both x y S := by
  obtain ⟨a, b, hx, hy, hR⟩ := h
  exact ⟨a, b, hx, hy, hRS a b hR⟩

theorem sliceFrom_both {raw mid : List Char} {i j : ℕ} (h : Spot raw mid i j) :
    Both (sliceFrom raw i) (sliceFrom mid j) fun z z' =>
      Alike z z' ∧ ∃ a a', raw = a ++ z ∧ mid = a' ++ z' ∧ size a = i ∧ size a' = j := by
  obtain ⟨a, z, a', z', rfl, rfl, rfl, rfl, hz⟩ := h
  exact ⟨z, z', sliceFrom_append a z, sliceFrom_append a' z', hz, a, a', rfl, rfl, rfl, rfl⟩

/-- Characters of one byte that neither open a key block nor a marker, and are no letters. -/
def Plain (c : Char) : Bool := c != '-' && c != '<' && !c.isAlpha && decide ¬Wide c

theorem goesOnWith_both {raw mid chars : List Char} {i j : ℕ} (hchars : chars.all Plain = true)
    (h : Spot raw mid i j) :
    Both (goesOnWith chars raw i) (goesOnWith chars mid j) fun r r' =>
      r = r' ∧ (r = true → Gap raw i (i + 1) ∧ Spot raw mid (i + 1) (j + 1)) := by
  have hnot (c : Char) (hc : Plain c = false) : chars.contains c = false := by
    by_contra hmem
    have hplain := List.all_eq_true.mp hchars c (by simpa using hmem)
    rw [hc] at hplain
    cases hplain
  refine (sliceFrom_both h).bind ?_
  rintro z z' ⟨hz, a, a', rfl, rfl, rfl, rfl⟩
  refine Both.ok ⟨hz.head (hnot '-' rfl) (hnot '<' rfl), ?_⟩
  intro hhead
  -- Where the texts come apart, neither goes on with one of the characters.
  cases hz with
  | nil => cases hhead
  | apart z z' =>
    rw [List.head?_cons, Option.any_some, hnot '-' rfl] at hhead
    cases hhead
  | @cons c z z' hz =>
    have hplain := List.all_eq_true.mp hchars c (by simpa using hhead)
    simp only [Plain, Bool.and_eq_true, Bool.not_eq_true', decide_eq_true_eq] at hplain
    obtain ⟨⟨-, halpha⟩, hnarrow⟩ := hplain
    have hone : size [c] = 1 := by
      rw [size_cons, size_nil, utf8Size_of_not_wide hnarrow]
    refine ⟨⟨a, [c], z, rfl, rfl, by rw [hone], by simpa using halpha⟩, a ++ [c], z, a' ++ [c], z',
      by simp, by simp, ?_, ?_, hz⟩
    · rw [size_append, hone]
    · rw [size_append, hone]

theorem skipSpace_both {raw mid : List Char} {i j : ℕ} (h : Spot raw mid i j) :
    Both (skipSpace raw i) (skipSpace mid j) fun p q => Gap raw i p ∧ Spot raw mid p q := by
  refine (sliceFrom_both h).bind ?_
  rintro z z' ⟨hz, a, a', rfl, rfl, rfl, rfl⟩
  let p (c : Char) : Bool := c == ' ' || c == '\t'
  have hcut := List.takeWhile_append_dropWhile (p := p) (l := z)
  have hcut' := List.takeWhile_append_dropWhile (p := p) (l := z')
  refine Both.ok ⟨⟨a, z.takeWhile p, z.dropWhile p, by rw [hcut], rfl, rfl, ?_⟩,
    a ++ z.takeWhile p, z.dropWhile p, a' ++ z'.takeWhile p, z'.dropWhile p,
    by rw [List.append_assoc, hcut], by rw [List.append_assoc, hcut'], size_append _ _,
    size_append _ _, hz.dropWhile rfl rfl⟩
  intro c hc
  have hspace := List.mem_takeWhile_imp hc
  simp only [p, Bool.or_eq_true, beq_iff_eq] at hspace
  rcases hspace with rfl | rfl <;> rfl

/-- What two searches for a value yield: the value of the first text stands after no letter, and
ends where no token goes on; where the first finds none, so does the second. -/
structure Values (raw mid : List Char) (i : ℕ) (r r' : Option (ℕ × ℕ)) : Prop where
  value : ∀ p ∈ r, Gap raw i p.1 ∧ AtStop raw p.2
  none_of_none : r = none → r' = none
  spot : ∀ p ∈ r, ∀ p' ∈ r', Spot raw mid p.1 p'.1

theorem values_none (raw mid : List Char) (i : ℕ) : Values raw mid i none none where
  value := by simp
  none_of_none := id
  spot := by simp

theorem Values.mono {raw mid : List Char} {i j : ℕ} {r r' : Option (ℕ × ℕ)}
    (h : Values raw mid j r r') (hgap : Gap raw i j) : Values raw mid i r r' where
  value p hp := ⟨hgap.trans (h.value p hp).1, (h.value p hp).2⟩
  none_of_none := h.none_of_none
  spot := h.spot

/-- What the first search finds does not depend on the second. -/
theorem Values.left {raw mid : List Char} {i : ℕ} {r r' : Option (ℕ × ℕ)}
    (h : Values raw raw i r r') : Values raw mid i r none where
  value := h.value
  none_of_none _ := rfl
  spot := by simp

theorem quotedOffset_split {quote : Char} {escaped : Bool} {z : List Char} {n : ℕ}
    (h : quotedOffset quote escaped z = some n) :
    ∃ v t, z = v ++ t ∧ size v = n ∧ ∀ c ∈ t.head?, c = '\r' ∨ c = '\n' ∨ c = quote := by
  induction z generalizing escaped n with
  | nil => cases h
  | cons c z ih =>
    have hnext {e : Bool} (hm : (quotedOffset quote e z).map (· + c.utf8Size) = some n) :
        ∃ v t, c :: z = v ++ t ∧ size v = n ∧ ∀ c ∈ t.head?, c = '\r' ∨ c = '\n' ∨ c = quote := by
      obtain ⟨m, hrest, rfl⟩ := Option.map_eq_some_iff.mp hm
      obtain ⟨v, t, rfl, rfl, ht⟩ := ih hrest
      exact ⟨c :: v, t, rfl, by rw [size_cons, Nat.add_comm], ht⟩
    rw [quotedOffset] at h
    split_ifs at h with hline hescaped hslash hquote
    · obtain rfl := Option.some.inj h
      refine ⟨[], c :: z, rfl, rfl, ?_⟩
      rintro d ⟨⟩
      exact hline.elim .inl fun hn => .inr (.inl hn)
    · exact hnext h
    · exact hnext h
    · obtain rfl := Option.some.inj h
      refine ⟨[], c :: z, rfl, rfl, ?_⟩
      rintro d ⟨⟩
      exact .inr (.inr hquote)
    · exact hnext h

/-- Whether a quoted value is empty is told by the character after the quote. -/
theorem quotedOffset_cons_eq_zero {quote c : Char} {z z' : List Char}
    (h : quotedOffset quote false (c :: z) = some 0) :
    quotedOffset quote false (c :: z') = some 0 := by
  have hpos := Char.utf8Size_pos c
  have hnext {e : Bool} (hm : (quotedOffset quote e z).map (· + c.utf8Size) = some 0) : False := by
    obtain ⟨m, -, hm⟩ := Option.map_eq_some_iff.mp hm
    omega
  rw [quotedOffset] at h ⊢
  rw [if_neg Bool.false_ne_true] at h ⊢
  split_ifs at h ⊢ with hline hslash hquote
  · rfl
  · exact (hnext h).elim
  · rfl
  · exact (hnext h).elim

/-- A token goes on with characters of a value only. -/
theorem isValueChar_of_isTokenChar {c : Char} (h : isTokenChar c = true) :
    isValueChar c = true := by
  rcases Bool.or_eq_true_iff.mp h with hc | hc
  · have hrange := toNat_of_isAlphanum hc
    have hspace : isWhitespace c = false := by
      simp only [isWhitespace, Bool.or_eq_false_iff, Bool.and_eq_false_iff,
        decide_eq_false_iff_not, beq_eq_false_iff_ne]
      omega
    have hend : [',', ';', '\'', '"', '&', '<', '>', '}', ']', ')'].contains c = false := by
      by_contra hmem
      rw [Bool.not_eq_false, List.contains_iff_mem] at hmem
      rw [eq_false_of_any (p := Char.isAlphanum) (by decide) hmem] at hc
      cases hc
    rw [isValueChar, hspace, hend]
    rfl
  · have hmem : c ∈ ['_', '-', '.', '/', '+', '='] := by simpa using hc
    have hall : ['_', '-', '.', '/', '+', '='].all isValueChar = true := by decide
    exact List.all_eq_true.mp hall c hmem

theorem atStop_size (raw : List Char) : AtStop raw (size raw) :=
  ⟨raw, [], by simp, rfl, by simp⟩

/-- The range of a quoted value, from the offset of what ends it. -/
def quotedRange (start stop : ℕ) : Option ℕ → Option (ℕ × ℕ)
  | some offset => if 0 < offset then some (start, start + offset) else none
  | none => if start < stop then some (start, stop) else none

theorem quotedRange_start {start stop : ℕ} {offset : Option ℕ} {p : ℕ × ℕ}
    (h : p ∈ quotedRange start stop offset) : p.1 = start := by
  cases offset <;> simp only [quotedRange] at h <;> split_ifs at h <;> cases h <;> rfl

/-- A quoted value ends at a quote, a line break, or the end of the text. -/
theorem quotedRange_stop {a z : List Char} {quote : Char} (hquote : isTokenChar quote = false)
    {p : ℕ × ℕ} (h : p ∈ quotedRange (size a) (size (a ++ z)) (quotedOffset quote false z)) :
    AtStop (a ++ z) p.2 := by
  cases hoff : quotedOffset quote false z with
  | none =>
    rw [hoff, quotedRange] at h
    split_ifs at h
    · cases h
      exact atStop_size _
    · cases h
  | some offset =>
    rw [hoff, quotedRange] at h
    split_ifs at h
    · cases h
      obtain ⟨v, t, rfl, rfl, ht⟩ := quotedOffset_split hoff
      refine ⟨a ++ v, t, by simp, size_append a v, ?_⟩
      intro c hc
      rcases ht c hc with rfl | rfl | rfl
      · rfl
      · rfl
      · exact hquote
    · cases h

/-- A quoted value that is empty stays empty. -/
theorem quotedRange_none {a a' z z' : List Char} {quote : Char} (hdash : quote ≠ '-')
    (hz : Alike z z')
    (h : quotedRange (size a) (size (a ++ z)) (quotedOffset quote false z) = none) :
    quotedRange (size a') (size (a' ++ z')) (quotedOffset quote false z') = none := by
  cases hoff : quotedOffset quote false z with
  | none =>
    rw [hoff, quotedRange] at h
    have hempty : z = [] := by
      by_contra hne
      have hpos := size_pos hne
      rw [size_append, if_pos (by omega)] at h
      cases h
    subst hempty
    cases hz
    simp [quotedOffset, quotedRange]
  | some offset =>
    rw [hoff, quotedRange] at h
    obtain rfl : offset = 0 := by
      by_contra hne
      rw [if_pos (by omega)] at h
      cases h
    cases hz with
    | nil => cases hoff
    -- The key opens with a dash, which closes no quoted value.
    | apart z z' =>
      obtain ⟨v, t, heq, hv, ht⟩ := quotedOffset_split hoff
      obtain rfl := size_eq_zero hv
      rw [List.nil_append] at heq
      rcases ht '-' (by rw [← heq]; rfl) with hc | hc | hc
      · cases hc
      · cases hc
      · exact absurd hc.symm hdash
    | cons c hz =>
      rw [quotedOffset_cons_eq_zero hoff, quotedRange]
      exact if_neg (Nat.lt_irrefl 0)

/-- The range of a value without quotes. -/
def plainRange (start length : ℕ) : Option (ℕ × ℕ) :=
  if start < start + length then some (start, start + length) else none

theorem plainRange_start {start length : ℕ} {p : ℕ × ℕ} (h : p ∈ plainRange start length) :
    p.1 = start := by
  rw [plainRange] at h
  split_ifs at h
  · cases h
    rfl
  · cases h

/-- A value without quotes ends before a character that neither values nor tokens have. -/
theorem plainRange_stop {a z : List Char} {p : ℕ × ℕ}
    (h : p ∈ plainRange (size a) (spanSize isValueChar z)) : AtStop (a ++ z) p.2 := by
  rw [plainRange] at h
  split_ifs at h
  · cases h
    have hcut := List.takeWhile_append_dropWhile (p := isValueChar) (l := z)
    refine ⟨a ++ z.takeWhile isValueChar, z.dropWhile isValueChar,
      by rw [List.append_assoc, hcut], size_append _ _, ?_⟩
    intro c hc
    have hvalue : isValueChar c = false := by
      have hnot := List.head?_dropWhile_not isValueChar z
      rw [Option.mem_def.mp hc] at hnot
      exact hnot
    -- The character after a value is none of a value's, so none of a token's.
    by_contra htoken
    rw [Bool.not_eq_false] at htoken
    rw [isValueChar_of_isTokenChar htoken] at hvalue
    cases hvalue
  · cases h

/-- Values without quotes, where the second text goes on with a value only if the first does. -/
theorem plainRange_both {a z a' z' : List Char}
    (h : spanSize isValueChar z = 0 → spanSize isValueChar z' = 0)
    (hz : 0 < spanSize isValueChar z' → Alike z z') :
    Values (a ++ z) (a' ++ z') (size a) (plainRange (size a) (spanSize isValueChar z))
      (plainRange (size a') (spanSize isValueChar z')) where
  value p hp := by
    rw [plainRange_start hp]
    exact ⟨gap_refl (boundary_size_append a z), plainRange_stop hp⟩
  none_of_none hr := by
    rw [plainRange] at hr ⊢
    have hzero : spanSize isValueChar z = 0 := by
      by_contra hne
      rw [if_pos (by omega)] at hr
      cases hr
    rw [h hzero]
    exact if_neg (Nat.lt_irrefl _)
  spot p hp p' hp' := by
    rw [plainRange_start hp, plainRange_start hp']
    have hpos : 0 < spanSize isValueChar z' := by
      rw [plainRange] at hp'
      split_ifs at hp'
      · omega
      · cases hp'
    exact ⟨a, z, a', z', rfl, rfl, rfl, rfl, hz hpos⟩

theorem valueRange_both {raw mid : List Char} {i j : ℕ} (h : Spot raw mid i j) :
    Both (valueRange raw i) (valueRange mid j) (Values raw mid i) := by
  refine (sliceFrom_both h).bind ?_
  rintro z z' ⟨hz, a, a', rfl, rfl, rfl, rfl⟩
  cases hz with
  | nil => exact Both.ok (values_none _ _ _)
  | apart z z' =>
    have hdash : ¬ ('-' = '\'' ∨ '-' = '"') := by decide
    have hmark : ¬ ('<' = '\'' ∨ '<' = '"') := by decide
    simp only [if_neg hdash, if_neg hmark]
    -- No value opens as the marker does.
    have hnone : spanSize isValueChar ('<' :: z') = 0 := rfl
    refine Both.ok (plainRange_both (fun _ => hnone) ?_)
    rw [hnone]
    exact fun hpos => absurd hpos (Nat.lt_irrefl 0)
  | @cons c z z' hz =>
    by_cases hquote : c = '\'' ∨ c = '"'
    · simp only [if_pos hquote]
      have hone : size [c] = 1 := by
        rcases hquote with rfl | rfl <;> rfl
      have halpha : c.isAlpha = false := by
        rcases hquote with rfl | rfl <;> rfl
      have htoken : isTokenChar c = false := by
        rcases hquote with rfl | rfl <;> rfl
      have hdash : c ≠ '-' := by
        rcases hquote with rfl | rfl <;> decide
      -- The value starts after the quote, which is one byte.
      have hraw : a ++ c :: z = (a ++ [c]) ++ z := by simp
      have hmid : a' ++ c :: z' = (a' ++ [c]) ++ z' := by simp
      have hsize : size a + 1 = size (a ++ [c]) := by rw [size_append, hone]
      have hsize' : size a' + 1 = size (a' ++ [c]) := by rw [size_append, hone]
      rw [hsize, hsize', hraw, hmid, sliceFrom_append, sliceFrom_append, ok_bind, ok_bind]
      refine ⟨quotedRange (size (a ++ [c])) (size ((a ++ [c]) ++ z)) (quotedOffset c false z),
        quotedRange (size (a' ++ [c])) (size ((a' ++ [c]) ++ z')) (quotedOffset c false z'),
        ?_, ?_, ?_, quotedRange_none hdash hz, ?_⟩
      · cases quotedOffset c false z <;> rfl
      · cases quotedOffset c false z' <;> rfl
      · intro p hp
        refine ⟨?_, quotedRange_stop htoken hp⟩
        rw [quotedRange_start hp]
        exact ⟨a, [c], z, by simp, rfl, (size_append a [c]).symm, by simpa using halpha⟩
      · intro p hp p' hp'
        rw [quotedRange_start hp, quotedRange_start hp']
        exact ⟨a ++ [c], z, a' ++ [c], z', rfl, rfl, rfl, rfl, hz⟩
    · simp only [if_neg hquote]
      refine Both.ok (plainRange_both ?_ fun _ => .cons c hz)
      intro hzero
      by_cases hc : isValueChar c = true
      · have hpos := Char.utf8Size_pos c
        rw [spanSize, List.takeWhile_cons_of_pos hc, size_cons] at hzero
        omega
      · rw [spanSize, List.takeWhile_cons_of_neg hc, size_nil]

/-- Do two dashes stand before an offset? -/
def flagged (raw : List Char) (i : ℕ) : Bool :=
  match byteSlice raw (i - 2) i with
  | .ok flag => decide (2 ≤ i) && flag == [0x2D, 0x2D]
  | .error _ => false

/-- The value after a flag and a space, if the word is a flag. -/
theorem flagRange_eq {raw : List Char} {i keyEnd : ℕ} {spaced : Bool} (hi : i ≤ size raw)
    (hspaced : goesOnWith [' ', '\t'] raw keyEnd = .ok spaced)
    (x : Except Panic (Option (ℕ × ℕ))) :
    (if 2 ≤ i then do
      let flag ← byteSlice raw (i - 2) i
      let spaced ← goesOnWith [' ', '\t'] raw keyEnd
      if flag == [0x2D, 0x2D] && spaced then x else return none
    else return none) = if flagged raw i && spaced then x else .ok none := by
  obtain ⟨flag, hflag, -⟩ := byteSlice_returns (Nat.sub_le i 2) hi
  by_cases htwo : 2 ≤ i
  · simp only [flagged, hflag, hspaced, ok_bind, htwo, decide_true, Bool.true_and]
    rfl
  · simp only [flagged, hflag, htwo, decide_false, Bool.false_and]
    rfl

/-- The value after spaces. -/
theorem spacedRange_both {raw mid : List Char} {i j : ℕ} (h : Spot raw mid i j) :
    Both (do let start ← skipSpace raw i; valueRange raw start)
      (do let start ← skipSpace mid j; valueRange mid start) (Values raw mid i) := by
  refine (skipSpace_both h).bind ?_
  rintro p q ⟨hgap, hspot⟩
  refine (valueRange_both hspot).mono ?_
  intro r r' hr
  exact hr.mono hgap

/-- The value a label is followed by; the second text may lack the dashes of a flag. -/
theorem assignedRange_both {raw mid : List Char} {i j m n : ℕ} (h : Spot raw mid i j)
    (hm : m ≤ size raw) (hn : n ≤ size mid)
    (hflag : flagged mid n = true → flagged raw m = true) :
    Both (assignedRange raw m i) (assignedRange mid n j) (Values raw mid i) := by
  refine (goesOnWith_both (by decide) h).bind ?_
  rintro quoted _ ⟨rfl, hquoted⟩
  obtain ⟨hskip, hopen⟩ : Gap raw i (if quoted then i + 1 else i) ∧
      Spot raw mid (if quoted then i + 1 else i) (if quoted then j + 1 else j) := by
    by_cases hq : quoted = true
    · simpa only [if_pos hq] using hquoted hq
    · simpa only [if_neg hq] using ⟨gap_refl h.boundary, h⟩
  refine (skipSpace_both hopen).bind ?_
  rintro p q ⟨hspace, hpos⟩
  refine (goesOnWith_both (by decide) hpos).bind ?_
  rintro assigned _ ⟨rfl, hassigned⟩
  by_cases ha : assigned = true
  · rw [if_pos ha, if_pos ha]
    obtain ⟨hsign, hnext⟩ := hassigned ha
    refine (spacedRange_both hnext).mono ?_
    intro r r' hr
    exact hr.mono ((hskip.trans hspace).trans hsign)
  -- Without a sign the word has to be a flag; the second text may have lost its dashes.
  · rw [if_neg ha, if_neg ha]
    have hchars : [' ', '\t'].all Plain = true := by decide
    obtain ⟨spaced, spaced', hraw, hmid, rfl, -⟩ := goesOnWith_both hchars h
    rw [flagRange_eq hm hraw, flagRange_eq hn hmid]
    by_cases hf : (flagged mid n && spaced) = true
    · have hf' : (flagged raw m && spaced) = true := by
        rw [Bool.and_eq_true] at hf ⊢
        exact ⟨hflag hf.1, hf.2⟩
      rw [if_pos hf, if_pos hf']
      exact spacedRange_both h
    · rw [if_neg hf]
      obtain ⟨r, r', hr, -, hvalues⟩ := spacedRange_both (spot_refl h.boundary)
      split_ifs
      · exact ⟨r, none, hr, rfl, hvalues.left⟩
      · exact Both.ok (values_none _ _ _)

theorem pathAt_both {raw mid : List Char} {i j : ℕ} (h : Spot raw mid i j) :
    Both (pathAt raw i) (pathAt mid j) Eq := by
  refine (sliceFrom_both h).bind ?_
  rintro z z' ⟨hz, -⟩
  refine Both.ok ?_
  rw [hz.opens (by decide) (by decide), hz.opens (by decide) (by decide),
    hz.opens (by decide) (by decide), hz.opens (by decide) (by decide)]

/-- **A word that labels no value in the first text labels none in the second**, and the value it
labels in the first stands after no letter and ends where no token goes on. -/
theorem labelledRange_both {raw mid : List Char} {i j m n : ℕ} (key : List Char)
    (h : Spot raw mid i j) (hm : m ≤ size raw) (hn : n ≤ size mid)
    (hflag : flagged mid n = true → flagged raw m = true) :
    Both (labelledRange raw m i key) (labelledRange mid n j key) fun r r' =>
      (∀ p ∈ r, Gap raw i p.1 ∧ AtStop raw p.2) ∧ (r = none → r' = none) := by
  refine (goesOnWith_both (by decide) h).bind ?_
  rintro spaced _ ⟨rfl, -⟩
  by_cases hbearer : key = "bearer".toList ∧ spaced = true
  · rw [if_pos hbearer, if_pos hbearer]
    refine (spacedRange_both h).mono ?_
    intro r r' hr
    exact ⟨hr.value, hr.none_of_none⟩
  · rw [if_neg hbearer, if_neg hbearer]
    by_cases hkey : sensitiveAssignmentKey key = true
    · rw [if_pos hkey, if_pos hkey]
      refine (assignedRange_both h hm hn hflag).bind ?_
      rintro r r' ⟨hvalue, hnone, hspot⟩
      cases r with
      | none =>
        rw [hnone rfl]
        exact Both.ok (by simp)
      | some p =>
        -- A path after a plain `key` is no value; the value opens alike in both texts.
        have hkept (path : Bool) (q : ℕ × ℕ)
            (hq : q ∈ if key = "key".toList ∧ path then none else some p) : q = p := by
          split_ifs at hq
          · cases hq
          · exact (Option.mem_some_iff.mp hq).symm
        cases r' with
        | none =>
          obtain ⟨path, hpath, -⟩ := pathAt_returns (hvalue p rfl).1.boundary
          refine ⟨if key = "key".toList ∧ path then none else some p, none, ?_, rfl, ?_,
            fun _ => rfl⟩
          · simp only [hpath, ok_bind]
            rfl
          · intro q hq
            rw [hkept path q hq]
            exact hvalue p rfl
        | some p' =>
          refine (pathAt_both (hspot p rfl p' rfl)).bind ?_
          rintro path _ rfl
          refine Both.ok ⟨?_, ?_⟩
          · intro q hq
            rw [hkept path q hq]
            exact hvalue p rfl
          · intro hr
            split_ifs at hr ⊢ with hfile
            rfl
    · rw [if_neg hkey, if_neg hkey]
      exact Both.ok (by simp)

end Sysknife.Brain
