import Mathlib.Data.List.DropRight
import Sysknife.Brain.Labels
import Sysknife.Brain.Redaction

/-!
# The walk over the words of a text

The walk of `redact_tool_secrets` looks for a key only where it comes to a word, and it goes on
after the word: a run of letters, digits, `_` and `-` is looked at once, where its first word
starts.

* `tokenOf`: the token a text opens with; the loop remembers where it ends (`Cached`).
* `round_at`: what a round does, by whether a word starts.
* `secretParts_drops`: a key that the first word of a run opens with is cut out, unless the word
  labels a value.
-/

namespace Sysknife.Brain

open Slices Pieces

/-! ### Keys and where they stand -/

/-- The token a text opens with, without the dots that close it. -/
def tokenOf (z : List Char) : List Char := (z.takeWhile isTokenChar).rdropWhile (· == '.')

/-- Is the token the text opens with a provider's key? -/
def OpensKey (z : List Char) : Prop :=
  recognizableKey (tokenOf z) ((tokenOf z).map Char.toLower) = true

instance (z : List Char) : Decidable (OpensKey z) := inferInstanceAs (Decidable (_ = _))

/-- A letter, digit or `_`: after these no word starts. -/
def isInnerChar (c : Char) : Bool := c.isAlphanum || c == '_'

/-- A word starts with the text `z` that stands after `a`. -/
def StartsWord (a z : List Char) : Prop :=
  z.head?.any Char.isAlpha = true ∧ a.getLast?.any isInnerChar = false

instance (a z : List Char) : Decidable (StartsWord a z) := inferInstanceAs (Decidable (_ ∧ _))

/-- The word at an offset, in small letters. -/
def wordOf (z : List Char) : List Char := (z.takeWhile isKeyChar).map Char.toLower

/-- What is not wide is read from one byte. -/
theorem byteAt_append {c : Char} (hc : ¬Wide c) (a b : List Char) :
    byteAt (a ++ c :: b) (size a) = .ok (UInt8.ofNat c.toNat) := by
  have hget : (bytes (a ++ c :: b))[size a]? = some (UInt8.ofNat c.toNat) := by
    rw [← Nat.add_zero (size a), ← List.getElem?_drop, drop_bytes, bytes_cons,
      encode_of_not_wide hc]
    rfl
  rw [byteAt, hget]

theorem not_wide_of_isTokenChar {c : Char} (h : isTokenChar c = true) : ¬Wide c := by
  rcases Bool.or_eq_true_iff.mp h with hc | hc
  · have hrange := toNat_of_isAlphanum hc
    rw [Wide]
    omega
  · have hmem : c ∈ ['_', '-', '.', '/', '+', '='] := by simpa using hc
    have hall : (['_', '-', '.', '/', '+', '='].all fun d => decide ¬Wide d) = true := by decide
    exact of_decide_eq_true (List.all_eq_true.mp hall c hmem)

theorem isTokenChar_of_isAlpha {c : Char} (h : c.isAlpha = true) : isTokenChar c = true := by
  rw [isTokenChar, Char.isAlphanum, h]
  rfl

theorem ne_dot_of_isAlpha {c : Char} (h : c.isAlpha = true) : c ≠ '.' := by
  rintro rfl
  cases h

theorem isTokenChar_of_isKeyChar {c : Char} (h : isKeyChar c = true) : isTokenChar c = true := by
  simp only [isKeyChar, Bool.or_eq_true, beq_iff_eq] at h
  rcases h with (h | rfl) | rfl
  · rw [isTokenChar, h]
    rfl
  · rfl
  · rfl

theorem not_wide_of_isInnerChar {c : Char} (h : isInnerChar c = true) : ¬Wide c := by
  refine not_wide_of_isTokenChar (isTokenChar_of_isKeyChar ?_)
  rw [isKeyChar]
  rw [isInnerChar] at h
  rw [h]
  rfl

/-- The byte before an offset tells whether the character before it is an inner one. -/
theorem withinWord_append (a z : List Char) :
    withinWord (a ++ z) (size a) = .ok (a.getLast?.any isInnerChar) := by
  induction a using List.reverseRecOn with
  | nil => rfl
  | append_singleton a c _ =>
    have hpos := Char.utf8Size_pos c
    have hsize : size (a ++ [c]) = size a + c.utf8Size := by simp
    rw [withinWord, if_pos (by omega), List.getLast?_concat, Option.any_some]
    -- A wide character ends in a high byte, and no inner character is wide.
    by_cases hwide : Wide c
    · obtain ⟨x, hx, hnarrow⟩ := byte_before a c z
      have hbyte : byteAt (a ++ [c] ++ z) (size (a ++ [c]) - 1) = .ok x := by
        rw [byteAt, List.append_assoc, List.singleton_append, hsize, hx]
      have hhigh : 128 ≤ x.toNat := by
        by_contra hlt
        have hc := (hnarrow (UInt8.lt_iff_toNat_lt.mpr (Nat.lt_of_not_le hlt))).2
        exact absurd hwide (Nat.not_le.mpr hc)
      have hlt := x.toNat_lt
      have hinner : isInnerChar c = false := by
        by_contra h
        exact not_wide_of_isInnerChar (Bool.not_eq_false _ ▸ h) hwide
      have halnum : (Char.ofNat x.toNat).isAlphanum = false := by
        by_contra h
        have hrange := toNat_of_isAlphanum (Bool.not_eq_false _ ▸ h)
        have hvalid : x.toNat.isValidChar := .inl (by omega)
        have hsame : (Char.ofNat x.toNat).toNat = x.toNat := by
          rw [Char.ofNat, dif_pos hvalid]
          rfl
        omega
      have hunder : (x == 0x5F) = false := by
        refine beq_false_of_ne ?_
        rintro rfl
        exact absurd hhigh (by decide)
      rw [hbyte, ok_bind, halnum, hunder, hinner]
      rfl
    · have hone : size (a ++ [c]) - 1 = size a := by
        rw [hsize, utf8Size_of_not_wide hwide, Nat.add_sub_cancel]
      have hlt : c.toNat < 128 := Nat.lt_of_not_le hwide
      have htoNat : (UInt8.ofNat c.toNat).toNat = c.toNat := by
        rw [UInt8.toNat_ofNat', Nat.mod_eq_of_lt (by omega)]
      have hunder : (UInt8.ofNat c.toNat == 0x5F) = (c == '_') := by
        rw [Bool.eq_iff_iff, beq_iff_eq, beq_iff_eq]
        exact byte_inj hwide (by decide : ¬Wide '_')
      rw [hone, List.append_assoc, List.singleton_append, byteAt_append hwide, ok_bind, htoNat,
        Char.ofNat_toNat, hunder]
      rfl

/-! ### Tokens -/

theorem tokenOf_isPrefix (z : List Char) : ∃ t, z = tokenOf z ++ t := by
  obtain ⟨s, hs⟩ := List.rdropWhile_prefix (· == '.') (z.takeWhile isTokenChar)
  refine ⟨s ++ z.dropWhile isTokenChar, ?_⟩
  rw [← List.append_assoc, tokenOf, hs, List.takeWhile_append_dropWhile]

/-- The dots that close a list are those that close its end, if not all of it is dots. -/
theorem rdropWhile_append {p : Char → Bool} {m r : List Char} (h : r.rdropWhile p ≠ []) :
    (m ++ r).rdropWhile p = m ++ r.rdropWhile p := by
  have hne : (r.reverse.dropWhile p).isEmpty = false := by
    rw [List.isEmpty_eq_false_iff]
    intro hnil
    exact h (by rw [List.rdropWhile, hnil, List.reverse_nil])
  simp [List.rdropWhile, List.dropWhile_append, hne]

/-- A text that opens with a letter. -/
def OpensAlpha (z : List Char) : Prop := z.head?.any Char.isAlpha = true

theorem OpensAlpha.cons {z : List Char} (h : OpensAlpha z) :
    ∃ c t, z = c :: t ∧ c.isAlpha = true := by
  cases z with
  | nil => cases h
  | cons c t => exact ⟨c, t, rfl, h⟩

theorem tokenOf_ne_nil {z : List Char} (h : OpensAlpha z) : tokenOf z ≠ [] := by
  obtain ⟨c, t, rfl, hc⟩ := h.cons
  rw [tokenOf, List.takeWhile_cons_of_pos (isTokenChar_of_isAlpha hc), Ne,
    List.rdropWhile_eq_nil_iff]
  intro hall
  exact ne_dot_of_isAlpha hc (by simpa using hall c List.mem_cons_self)

/-- A token that begins earlier ends where the token does. -/
theorem tokenOf_append {m z : List Char} (hm : ∀ c ∈ m, isTokenChar c = true)
    (hz : OpensAlpha z) : tokenOf (m ++ z) = m ++ tokenOf z := by
  rw [tokenOf, List.takeWhile_append_of_pos hm]
  exact rdropWhile_append (tokenOf_ne_nil hz)

/-- An offset within the characters of a token is one that tokens go on with. -/
theorem forall_of_size_lt {p : Char → Bool} {m z : List Char}
    (h : size m < size ((m ++ z).takeWhile p)) : ∀ c ∈ m, p c = true := by
  induction m with
  | nil => simp
  | cons c m ih =>
    rw [List.cons_append] at h
    by_cases hc : p c = true
    · rw [List.takeWhile_cons_of_pos hc, size_cons, size_cons] at h
      have hm := ih (by omega)
      simpa [hc] using hm
    · rw [List.takeWhile_cons_of_neg hc, size_nil] at h
      omega

theorem trimDots_append {r a t : List Char} {c : Char} {q : List Char} (hr : r = c :: q)
    (hc : c ≠ '.') (htoken : ∀ d ∈ r, ¬Wide d) :
    trimDots (a ++ (r ++ t)) (size a) (size a + size r) =
      .ok (size a + size (r.rdropWhile (· == '.'))) := by
  induction r using List.reverseRecOn generalizing q t with
  | nil => cases hr
  | append_singleton r d ih =>
    have hd : ¬Wide d := htoken d (by simp)
    have hsize : size a + size (r ++ [d]) = (size a + size r) + 1 := by
      simp [utf8Size_of_not_wide hd, Nat.add_assoc]
    have hbyte : byteAt (a ++ (r ++ [d] ++ t)) (size a + size r) = .ok (UInt8.ofNat d.toNat) := by
      have happ := byteAt_append hd (a ++ r) t
      rw [size_append] at happ
      rw [← happ]
      simp
    have hdot : UInt8.ofNat d.toNat = 0x2E ↔ d = '.' := byte_inj hd (by decide : ¬Wide '.')
    rw [hsize, trimDots, if_pos (by omega), hbyte, ok_bind]
    -- A closing dot is dropped; it is not the character the token opens with.
    by_cases h : d = '.'
    · rw [if_pos (hdot.mpr h), List.rdropWhile_concat_pos _ _ _ (by simpa using h)]
      have hhead : ∃ q, r = c :: q := by
        cases r with
        | nil => exact absurd (List.cons.inj hr).1 (by rw [h]; exact hc.symm)
        | cons e r => exact ⟨r, by rw [(List.cons.inj hr).1]⟩
      obtain ⟨q', hq'⟩ := hhead
      have hnext := ih (t := d :: t) hq' fun e he => htoken e (by simp [he])
      simpa using hnext
    · rw [if_neg (fun hx => h (hdot.mp hx)), List.rdropWhile_concat_neg _ _ _ (by simpa using h),
        ← hsize]
      rfl

/-- The ends that the loop remembers are those of a token it has come to. -/
def Cached (raw : List Char) (i scanned credential : ℕ) : Prop :=
  scanned ≤ i ∨ ∃ a z, raw = a ++ z ∧ size a ≤ i ∧ OpensAlpha z ∧
    scanned = size a + size (z.takeWhile isTokenChar) ∧ credential = size a + size (tokenOf z)

theorem Cached.mono {raw : List Char} {i j s c : ℕ} (h : Cached raw i s c) (hij : i ≤ j) :
    Cached raw j s c := by
  rcases h with h | ⟨a, z, hraw, ha, hz⟩
  · exact .inl (h.trans hij)
  · exact .inr ⟨a, z, hraw, ha.trans hij, hz⟩

theorem tokenEnds_eq {raw a z : List Char} {st : Scan} (hraw : raw = a ++ z)
    (hi : size a = st.i) (hz : OpensAlpha z)
    (hcached : Cached raw st.i st.scannedTokenEnd st.credentialTokenEnd) :
    tokenEnds raw st =
      .ok (size a + size (z.takeWhile isTokenChar), size a + size (tokenOf z)) := by
  rw [tokenEnds]
  by_cases hle : st.scannedTokenEnd ≤ st.i
  · obtain ⟨c, t, rfl, hc⟩ := hz.cons
    have htake := List.takeWhile_cons_of_pos (l := t) (isTokenChar_of_isAlpha hc)
    have hcut := List.takeWhile_append_dropWhile (p := isTokenChar) (l := c :: t)
    have htrim := trimDots_append (a := a) (t := (c :: t).dropWhile isTokenChar) htake
      (ne_dot_of_isAlpha hc) fun d hd => not_wide_of_isTokenChar (List.mem_takeWhile_imp hd)
    rw [hcut] at htrim
    rw [if_pos hle, ← hi, hraw, sliceFrom_append, ok_bind, spanSize]
    simp only [htrim, ok_bind]
    rfl
  · rw [if_neg hle]
    obtain hpast | ⟨a', z', hraw', ha', hz', hscanned, hcredential⟩ := hcached
    · exact absurd hpast hle
    · -- The remembered token began earlier, and this letter is within it.
      obtain ⟨m, rfl, rfl⟩ := exists_append_of_size_le (hraw'.symm.trans hraw) (hi.symm ▸ ha')
      have hinside : ∀ c ∈ m, isTokenChar c = true := by
        refine forall_of_size_lt (z := z) ?_
        rw [← hi, size_append] at hle
        omega
      rw [hscanned, hcredential, List.takeWhile_append_of_pos hinside, tokenOf_append hinside hz]
      simp only [size_append, Nat.add_assoc]
      rfl

theorem opens_lower {stem low : String} {t u : List Char}
    (hlow : low.toList = stem.toList.map Char.toLower) (h : opens stem t = true) :
    opens low (t.map Char.toLower ++ u) = true := by
  obtain ⟨r, rfl⟩ := List.isPrefixOf_iff_prefix.mp h
  refine List.isPrefixOf_iff_prefix.mpr ⟨r.map Char.toLower ++ u, ?_⟩
  rw [hlow, List.map_append, List.append_assoc]

/-- Where a token is a key, the loop looks for one. -/
theorem possibleKey_of_opensKey {t u : List Char}
    (h : recognizableKey t (t.map Char.toLower) = true) :
    possibleKey (t.map Char.toLower ++ u) = true := by
  have hstem (stem low : String) (hmem : low ∈ keyPrefixes)
      (hlow : low.toList = stem.toList.map Char.toLower) (ht : opens stem t = true) :
      possibleKey (t.map Char.toLower ++ u) = true := by
    refine Bool.or_eq_true_iff.mpr (.inl (List.any_eq_true.mpr ⟨low, hmem, ?_⟩))
    exact opens_lower hlow ht
  have hother (stem low : String) (hmem : low ∈ ["akia", "asia", "aiza", "eyj"])
      (hlow : low.toList = stem.toList.map Char.toLower) (ht : opens stem t = true) :
      possibleKey (t.map Char.toLower ++ u) = true := by
    refine Bool.or_eq_true_iff.mpr (.inr (List.any_eq_true.mpr ⟨low, hmem, ?_⟩))
    exact opens_lower hlow ht
  -- Each form of a key opens with a stem the loop looks for, written in small letters there.
  rw [recognizableKey] at h
  split_ifs at h with hssh hsg hhf hnpm hany haws haiza heyj
  · exact hstem "SG." "sg." (by decide) rfl hsg
  · exact hstem "hf_" "hf_" (by decide) rfl hhf
  · exact hstem "npm_" "npm_" (by decide) rfl hnpm
  · obtain ⟨stem, hmem, hopens⟩ := List.any_eq_true.mp hany
    obtain ⟨r, hr⟩ := List.isPrefixOf_iff_prefix.mp (Bool.and_eq_true_iff.mp hopens).1
    refine Bool.or_eq_true_iff.mpr (.inl (List.any_eq_true.mpr ⟨stem, ?_, ?_⟩))
    · exact List.mem_of_mem_filter hmem
    · exact List.isPrefixOf_iff_prefix.mpr ⟨r ++ u, by rw [← hr, List.append_assoc]⟩
  · rcases Bool.or_eq_true_iff.mp (Bool.and_eq_true_iff.mp (Bool.and_eq_true_iff.mp haws).1).1
      with ht | ht
    · exact hother "AKIA" "akia" (by decide) rfl ht
    · exact hother "ASIA" "asia" (by decide) rfl ht
  · exact hother "AIza" "aiza" (by decide) rfl
      (Bool.and_eq_true_iff.mp haiza).1
  · exact hother "eyJ" "eyj" (by decide) rfl (by simpa using heyj)

/-- What the loop finds at a word that labels no value: the token there, if it is a key. -/
theorem tokenRange_eq {raw a z : List Char} {st : Scan} (hraw : raw = a ++ z)
    (hi : size a = st.i) (hz : OpensAlpha z)
    (hcached : Cached raw st.i st.scannedTokenEnd st.credentialTokenEnd) :
    Returns (tokenRange raw (raw.map Char.toLower) st) fun found =>
      (∀ p ∈ found.1, p = (size a, size a + size (tokenOf z))) ∧
        (OpensKey z → found.1 = some (size a, size a + size (tokenOf z))) ∧
        Cached raw st.i found.2.1 found.2.2 := by
  obtain ⟨t, ht⟩ := tokenOf_isPrefix z
  have hlow : (raw.map Char.toLower) =
      a.map Char.toLower ++ ((tokenOf z).map Char.toLower ++ t.map Char.toLower) := by
    rw [hraw, List.map_append]
    refine congrArg (a.map Char.toLower ++ ·) ?_
    rw [← List.map_append]
    exact congrArg (List.map Char.toLower) ht
  have hsize : st.i = size (a.map Char.toLower) := by rw [size_map toLower_utf8Size, hi]
  have hslice : slice raw st.i (size a + size (tokenOf z)) = .ok (tokenOf z) := by
    rw [hraw, ← hi]
    exact (congrArg (slice · _ _) (congrArg (a ++ ·) ht)).trans (slice_append a (tokenOf z) t)
  have hslice' : slice (raw.map Char.toLower) st.i (size a + size (tokenOf z)) =
      .ok ((tokenOf z).map Char.toLower) := by
    have happ := slice_append (a.map Char.toLower) ((tokenOf z).map Char.toLower)
      (t.map Char.toLower)
    rw [← hi]
    rwa [← hlow, size_map toLower_utf8Size, size_map toLower_utf8Size] at happ
  have hrest : sliceFrom (raw.map Char.toLower) st.i =
      .ok ((tokenOf z).map Char.toLower ++ t.map Char.toLower) := by
    rw [hlow, hsize, sliceFrom_append]
  rw [tokenRange, hrest, ok_bind]
  by_cases hpossible :
      possibleKey ((tokenOf z).map Char.toLower ++ t.map Char.toLower) = true
  · rw [if_pos hpossible, tokenEnds_eq hraw hi hz hcached, ok_bind]
    simp only [hslice, hslice', ok_bind]
    refine Returns.ok ⟨?_, ?_, .inr ⟨a, z, hraw, hi.le, hz, rfl, rfl⟩⟩
    · intro p hp
      simp only at hp
      split_ifs at hp
      · exact (Option.mem_some_iff.mp hp).symm.trans (by rw [hi])
      · cases hp
    · intro hkey
      exact (if_pos hkey).trans (by rw [hi])
  · rw [if_neg hpossible]
    refine Returns.ok ⟨by simp, ?_, hcached⟩
    intro hkey
    exact absurd (possibleKey_of_opensKey hkey) hpossible

/-! ### The walk comes to the first word of a run -/

/-- A word starts with `x` after `b`, and none earlier in the run of key characters. -/
def FirstWord (b x : List Char) : Prop :=
  StartsWord b x ∧
    ∀ a m, b = a ++ m → m ≠ [] → (∀ c ∈ m, isKeyChar c = true) → ¬StartsWord a m

/-- What a round does where the text goes on with `z`: it skips a character where no word starts,
and otherwise finds a labelled value or the token, or skips the word. -/
theorem round_at {raw a z : List Char} {st : Scan} (hraw : raw = a ++ z) (hi : size a = st.i)
    (hz : z ≠ []) (hcached : Cached raw st.i st.scannedTokenEnd st.credentialTokenEnd) :
    Returns (round raw (raw.map Char.toLower) st) fun found =>
      Cached raw st.i found.2.2.1 found.2.2.2 ∧
      (¬StartsWord a z → found.1 = none ∧ ∀ c ∈ z.head?, found.2.1 = size a + c.utf8Size) ∧
      (StartsWord a z →
        (found.1 = none → found.2.1 = size a + spanSize isKeyChar z) ∧
        (∀ p ∈ found.1, (Gap raw (size a + spanSize isKeyChar z) p.1 ∧ AtStop raw p.2) ∨
          p = (size a, size a + size (tokenOf z))) ∧
        (labelledRange raw (size a) (size a + spanSize isKeyChar z) (wordOf z) = .ok none →
          OpensKey z → found.1 = some (size a, size a + size (tokenOf z)))) := by
  obtain ⟨c, t, rfl⟩ := List.exists_cons_of_ne_nil hz
  have hwithin : withinWord raw st.i = .ok (a.getLast?.any isInnerChar) := by
    rw [hraw, ← hi]
    exact withinWord_append a (c :: t)
  have hrest : sliceFrom raw st.i = .ok (c :: t) := by
    rw [hraw, ← hi]
    exact sliceFrom_append a (c :: t)
  rw [round, hrest, ok_bind]
  simp only [hwithin, ok_bind]
  by_cases hstart : StartsWord a (c :: t)
  · have hskip : ¬(!c.isAlpha || a.getLast?.any isInnerChar) = true := by
      rw [hstart.2, show c.isAlpha = true from hstart.1]
      exact Bool.false_ne_true
    rw [if_neg hskip]
    have hcut := List.takeWhile_append_dropWhile (p := isKeyChar) (l := c :: t)
    have hword : slice (raw.map Char.toLower) st.i (st.i + spanSize isKeyChar (c :: t)) =
        .ok (wordOf (c :: t)) := by
      have happ := slice_append (a.map Char.toLower) (wordOf (c :: t))
        (((c :: t).dropWhile isKeyChar).map Char.toLower)
      rw [wordOf, ← List.map_append, hcut, ← List.map_append, ← hraw,
        size_map toLower_utf8Size, size_map toLower_utf8Size, hi] at happ
      exact happ
    have hbound : Boundary raw (st.i + spanSize isKeyChar (c :: t)) := by
      rw [hraw, ← hi]
      exact (boundary_spanSize _).append_left a
    have hle : st.i ≤ size raw := by
      rw [hraw, ← hi, size_append]
      omega
    obtain ⟨range, -, hrange, -, hvalue, -⟩ := labelledRange_both (wordOf (c :: t))
      (spot_refl hbound) hle hle id
    simp only [secretAt, hword, hrange, ok_bind]
    cases range with
    | some p =>
      refine Returns.ok ⟨hcached, fun h => absurd hstart h, fun _ => ⟨?_, ?_, ?_⟩⟩
      · intro hnone
        cases hnone
      · rintro _ ⟨⟩
        rw [hi]
        exact .inl (hvalue p rfl)
      · intro hlabel
        rw [hi, hrange] at hlabel
        cases hlabel
    | none =>
      obtain ⟨⟨found, ends⟩, hfound, htoken, hkey, hends⟩ := tokenRange_eq hraw hi hstart.1 hcached
      simp only [hfound, ok_bind]
      refine Returns.ok ⟨hends, fun h => absurd hstart h, fun _ => ⟨?_, ?_, fun _ => hkey⟩⟩
      · intro hnone
        simp only at hnone
        rw [hnone, hi]
        rfl
      · intro p hp
        exact .inr (htoken p hp)
  · have hskip : (!c.isAlpha || a.getLast?.any isInnerChar) = true := by
      by_contra h
      rw [Bool.not_eq_true, Bool.or_eq_false_iff, Bool.not_eq_false'] at h
      exact hstart h
    rw [if_pos hskip]
    refine Returns.ok ⟨hcached, fun _ => ⟨rfl, ?_⟩, fun h => absurd h hstart⟩
    rintro _ ⟨⟩
    rw [hi]

/-- A word that starts earlier ends before the first word of a later run does start. -/
theorem FirstWord.word_le {a m x : List Char} (h : FirstWord (a ++ m) x) (hm : m ≠ [])
    (hstart : StartsWord a (m ++ x)) : spanSize isKeyChar (m ++ x) ≤ size m := by
  by_contra hlt
  refine h.2 a m rfl hm (forall_of_size_lt (Nat.lt_of_not_le hlt)) ⟨?_, hstart.2⟩
  obtain ⟨c, m, rfl⟩ := List.exists_cons_of_ne_nil hm
  exact hstart.1

theorem size_tokenOf_le (z : List Char) : size (tokenOf z) ≤ size (z.takeWhile isTokenChar) := by
  obtain ⟨s, hs⟩ := List.rdropWhile_prefix (· == '.') (z.takeWhile isTokenChar)
  rw [tokenOf, ← hs, size_append, hs]
  exact Nat.le_add_right _ _

/-- What is found at an earlier word begins before the first word of a later run, and cuts out the
token there if it goes beyond its beginning. -/
theorem FirstWord.covered {raw a m x : List Char} {p : ℕ × ℕ} (h : FirstWord (a ++ m) x)
    (hraw : raw = a ++ (m ++ x)) (hm : m ≠ []) (hstart : StartsWord a (m ++ x))
    (hp : (Gap raw (size a + spanSize isKeyChar (m ++ x)) p.1 ∧ AtStop raw p.2) ∨
      p = (size a, size a + size (tokenOf (m ++ x)))) :
    p.1 ≤ size (a ++ m) ∧ (size (a ++ m) < p.2 → size (a ++ m) + size (tokenOf x) ≤ p.2) := by
  have hraw' : raw = (a ++ m) ++ x := by rw [hraw, List.append_assoc]
  have hword := h.word_le hm hstart
  rcases hp with ⟨hgap, hstop⟩ | rfl
  · -- A labelled value: between the label and the value no word starts.
    obtain ⟨c, t, rfl, hc⟩ := OpensAlpha.cons h.1.1
    refine ⟨hgap.le hraw' hc (by rw [size_append]; omega), ?_⟩
    intro hlt
    have htoken := hstop.le hraw' hlt.le
    have hsize := size_tokenOf_le (c :: t)
    omega
  · -- A token that goes beyond the beginning of another ends where this one does.
    refine ⟨by simp, ?_⟩
    intro hlt
    have hsize := size_tokenOf_le (m ++ x)
    have hinside : ∀ c ∈ m, isTokenChar c = true := by
      refine forall_of_size_lt (z := x) ?_
      rw [size_append] at hlt
      simp only at hlt
      omega
    rw [tokenOf_append hinside h.1.1, size_append, size_append, Nat.add_assoc]

/-- The token `t` after `b` is cut out of the parts from `copied` on. -/
def DropsFrom (b t : List Char) (copied : ℕ) (p : Parts Char) : Prop :=
  ∃ a d, b = a ++ d ∧ size a = copied ∧ p.Drops t d

/-- A token that is cut out after a piece. -/
theorem dropsFrom_later {b x t : List Char} {kept secret : List Char} {more : Parts Char}
    {copied stop : ℕ} (hparts : PartsFrom (b ++ x) copied (.cut kept secret more))
    (hsize : copied + size kept + size secret = stop) (h : DropsFrom b t stop more) :
    DropsFrom b t copied (.cut kept secret more) := by
  obtain ⟨a, d, rfl, ha, hdrops⟩ := h
  obtain ⟨e, he, rfl⟩ := hparts
  -- Both sides are the text, cut where the secret ends.
  obtain ⟨rfl, -⟩ : a = (e ++ kept) ++ secret ∧ d ++ x = more.source :=
    append_inj_of_size (by rw [← List.append_assoc, he]; simp [Parts.source])
      (by rw [ha, ← hsize, size_append, size_append])
  exact ⟨e, kept ++ (secret ++ d), by simp, rfl, .inr ⟨d, rfl, hdrops⟩⟩

/-- A token that is cut out with a piece. -/
theorem dropsFrom_here {b t u : List Char} {kept secret : List Char} {more : Parts Char}
    {copied : ℕ} (hparts : PartsFrom (b ++ (t ++ u)) copied (.cut kept secret more))
    (hstart : copied + size kept ≤ size b)
    (hstop : size b + size t ≤ copied + size kept + size secret) :
    DropsFrom b t copied (.cut kept secret more) := by
  obtain ⟨e, he, rfl⟩ := hparts
  have hsource : (e ++ kept) ++ (secret ++ more.source) = b ++ (t ++ u) := by
    rw [he]
    simp [Parts.source]
  obtain ⟨c, rfl, hc⟩ := exists_append_of_size_le hsource (by rwa [size_append])
  have hrest : (c ++ t) ++ u = secret ++ more.source := by rw [hc, List.append_assoc]
  obtain ⟨v, hv, -⟩ := exists_append_of_size_le hrest (by
    simp only [size_append] at hstop ⊢
    omega)
  exact ⟨e, kept ++ c, by simp, rfl, .inl ⟨c, v, rfl, by rw [hv, List.append_assoc]⟩⟩

/-- **The walk comes to the first word of a run, or has cut it out before**: in either case the
key that stands there is cut out, unless it is taken for the label of a value. -/
theorem secretPartsFrom_drops {raw b x : List Char} (hraw : raw = b ++ x) (hfirst : FirstWord b x)
    (hlabel : labelledRange raw (size b) (size b + spanSize isKeyChar x) (wordOf x) = .ok none)
    (hkey : OpensKey x) {fuel : ℕ} (st : Scan) (hfuel : size raw < st.i + fuel)
    (hi : Boundary raw st.i) (hcopied : Boundary raw st.copied) (hle : st.copied ≤ st.i)
    (hdots : DotsBetween raw st.credentialTokenEnd st.scannedTokenEnd)
    (hcached : Cached raw st.i st.scannedTokenEnd st.credentialTokenEnd)
    (hreach : st.i ≤ size b) :
    Returns (secretPartsFrom raw (raw.map Char.toLower) fuel st) fun p =>
      PartsFrom raw st.copied p ∧ DropsFrom b (tokenOf x) st.copied p := by
  induction fuel generalizing st with
  | zero =>
    have hsize := hi.le
    omega
  | succ fuel ih =>
    have hx : x ≠ [] := by
      rintro rfl
      cases hfirst.1.1
    have hpos := size_pos hx
    have hend : ¬size raw ≤ st.i := by
      rw [hraw, size_append]
      omega
    obtain ⟨a, z, haz, ha⟩ := id hi
    -- The walk stands before the word or at it, with `m` between them.
    obtain ⟨m, rfl, rfl⟩ := exists_append_of_size_le (haz.symm.trans hraw) (ha ▸ hreach)
    obtain ⟨⟨range, next, ends⟩, hfound, hmoves, hnext, hends, hrange, hstop⟩ :=
      round_returns hi (Nat.lt_of_not_le hend) hdots
    obtain ⟨found, hfound', hcached', hskip, hword⟩ := round_at haz ha (by simp [hx]) hcached
    obtain rfl : (range, next, ends) = found := Except.ok.inj (hfound.symm.trans hfound')
    rw [secretPartsFrom, if_neg hend, hfound, ok_bind]
    simp only at hmoves hnext hends hrange hstop hcached' hskip hword
    have hcachedNext : Cached raw next ends.1 ends.2 := hcached'.mono hmoves.le
    cases range with
    | none =>
      have hm : m ≠ [] := by
        rintro rfl
        rw [List.append_nil] at hfirst hlabel
        cases (hword hfirst.1).2.2 hlabel hkey
      -- Nothing is found here, so this is not the word yet, and the walk does not go past it.
      have hnextLe : next ≤ size (a ++ m) := by
        by_cases hstart : StartsWord a (m ++ x)
        · rw [(hword hstart).1 rfl, size_append]
          exact Nat.add_le_add_left (hfirst.word_le hm hstart) _
        · obtain ⟨c, m, rfl⟩ := List.exists_cons_of_ne_nil hm
          rw [(hskip hstart).2 c rfl, size_append, size_cons]
          omega
      exact ih { st with i := next, scannedTokenEnd := ends.1, credentialTokenEnd := ends.2 }
        (by simp only; omega) hnext hcopied (hle.trans hmoves.le) hends hcachedNext hnextLe
    | some p =>
      obtain ⟨start, stop⟩ := p
      obtain ⟨hstart, hlt, hbstart, hbstop⟩ := hrange (start, stop) rfl
      obtain rfl : next = stop := hstop (start, stop) rfl
      simp only at hstart hlt hbstart hbstop
      have hword' : StartsWord a (m ++ x) := by
        by_contra h
        cases (hskip h).1
      -- Something is found: the key itself, or a value or a key of an earlier word.
      obtain ⟨hbefore, hcover⟩ : start ≤ size (a ++ m) ∧
          (size (a ++ m) < next → size (a ++ m) + size (tokenOf x) ≤ next) := by
        by_cases hm : m = []
        · subst hm
          rw [List.append_nil] at hlabel ⊢
          cases (hword hword').2.2 hlabel hkey
          exact ⟨le_rfl, fun _ => le_rfl⟩
        · exact hfirst.covered haz hm hword' ((hword hword').2.1 (start, next) rfl)
      let after : Scan :=
        { st with
          i := next, copied := next, scannedTokenEnd := ends.1, credentialTokenEnd := ends.2 }
      have hkept {kept secret : List Char} {more : Parts Char}
          (hslice : slice raw st.copied start = .ok kept)
          (hraw : ∃ c, raw = c ++ (secret ++ more.source) ∧ size c = start ∧
            start + size secret = next) :
          st.copied + size kept = start ∧ st.copied + size kept + size secret = next := by
        obtain ⟨kept', hslice', c, d, -, hc, hsize⟩ :=
          slice_returns hcopied hbstart (hle.trans hstart)
        obtain rfl : kept = kept' := Except.ok.inj (hslice.symm.trans hslice')
        obtain ⟨-, -, -, hsecret⟩ := hraw
        omega
      have hfuel' : size raw < after.i + fuel := by
        simp only [after]
        omega
      -- What is cut out ends before the word, and the walk goes on, or takes the key with it.
      by_cases hpast : next ≤ size (a ++ m)
      · refine (cutFrom_returns hcopied hbstart hbstop (hle.trans hstart) hlt.le
          (ih after hfuel' hbstop hbstop le_rfl hends hcachedNext hpast)).mono ?_
        rintro p ⟨hparts, kept, secret, more, rfl, hslice, hmore, hsource⟩
        refine ⟨hparts, ?_⟩
        rw [hraw] at hparts
        exact dropsFrom_later hparts (hkept hslice hsource).2 hmore
      · refine (cutFrom_returns hcopied hbstart hbstop (hle.trans hstart) hlt.le
          (secretPartsFrom_returns after hfuel' hbstop hbstop le_rfl hends)).mono ?_
        rintro p ⟨hparts, kept, secret, more, rfl, hslice, -, hsource⟩
        refine ⟨hparts, ?_⟩
        obtain ⟨hstartEq, hstopEq⟩ := hkept hslice hsource
        obtain ⟨u, hu⟩ := tokenOf_isPrefix x
        have hparts' : PartsFrom ((a ++ m) ++ (tokenOf x ++ u)) st.copied
            (.cut kept secret more) := by
          rw [← hu, ← hraw]
          exact hparts
        refine dropsFrom_here hparts' (by omega) ?_
        rw [hstopEq]
        exact hcover (Nat.lt_of_not_le hpast)

theorem secretParts_drops {b x : List Char} (hfirst : FirstWord b x)
    (hlabel : labelledRange (b ++ x) (size b) (size b + spanSize isKeyChar x) (wordOf x) =
      .ok none) (hkey : OpensKey x) :
    ∃ p, secretParts (b ++ x) = .ok p ∧ p.Drops (tokenOf x) b := by
  have hzero := boundary_zero (b ++ x)
  have hfuel : size (b ++ x) < 0 + (size (b ++ x) + 1) := by omega
  obtain ⟨p, hp, -, a, d, rfl, ha, hdrops⟩ := secretPartsFrom_drops rfl hfirst hlabel hkey
    { i := 0, copied := 0, scannedTokenEnd := 0, credentialTokenEnd := 0, out := [] }
    hfuel hzero hzero le_rfl (dotsBetween_self hzero) (.inl le_rfl) (Nat.zero_le _)
  obtain rfl := size_eq_zero ha
  exact ⟨p, hp, hdrops⟩

end Sysknife.Brain
