import Sysknife.Brain.Walk

/-!
# Provider keys in tool output

A key further on in a run of letters, digits, `_` and `-` is passed over, unless the first word of
the run opens with a key itself, and a word that labels a value is not taken for a key. The walk
reads a text whose private keys are already replaced; around what is kept this changes nothing it
looks at.

* `exists_kept`, `FirstWord.shown`, `labelledRange_shown`: the first word of a run before and after
  private keys are replaced.
* `key_redacted`: where a key is redacted; `dashed_key_survives`: a key that is not.
-/

namespace Sysknife.Brain

open Slices Pieces

/-! ### Before and after private keys are replaced -/

theorem takeWhile_append_of_exists {p : Char → Bool} {h : List Char}
    (hh : ∃ c ∈ h, p c = false) (f : List Char) : (h ++ f).takeWhile p = h.takeWhile p := by
  induction h with
  | nil => simp at hh
  | cons c h ih =>
    rw [List.cons_append, List.takeWhile_cons, List.takeWhile_cons]
    by_cases hc : p c = true
    · have hrest : ∃ d ∈ h, p d = false := by
        obtain ⟨d, hd, hpd⟩ := hh
        rcases List.mem_cons.mp hd with rfl | hd
        · rw [hc] at hpd
          cases hpd
        · exact ⟨d, hd, hpd⟩
      rw [if_pos hc, if_pos hc, ih hrest]
    · rw [if_neg hc, if_neg hc]

theorem dropWhile_append_of_exists {p : Char → Bool} {h : List Char}
    (hh : ∃ c ∈ h, p c = false) (f : List Char) :
    (h ++ f).dropWhile p = h.dropWhile p ++ f := by
  have htake := takeWhile_append_of_exists hh f
  have hcut := List.takeWhile_append_dropWhile (p := p) (l := h ++ f)
  have hcut' := List.takeWhile_append_dropWhile (p := p) (l := h)
  rw [htake] at hcut
  have hsame : h.takeWhile p ++ (h ++ f).dropWhile p = h.takeWhile p ++ (h.dropWhile p ++ f) := by
    rw [hcut, ← List.append_assoc, hcut']
  exact List.append_cancel_left hsame

/-- A token that a private key follows is not followed by it at once. -/
theorem exists_not_isTokenChar {t l g : List Char} (h : tokenOf (t ++ (l ++ '-' :: g)) = t)
    (ht : ∀ c ∈ t, isTokenChar c = true) : ∃ c ∈ l, isTokenChar c = false := by
  by_contra hnone
  have hl : ∀ c ∈ l, isTokenChar c = true := by
    intro c hc
    by_contra hfalse
    exact hnone ⟨c, hc, Bool.eq_false_iff.mpr hfalse⟩
  have hrun : (t ++ (l ++ '-' :: g)).takeWhile isTokenChar =
      t ++ (l ++ '-' :: g.takeWhile isTokenChar) := by
    rw [List.takeWhile_append_of_pos ht, List.takeWhile_append_of_pos hl,
      List.takeWhile_cons_of_pos rfl]
  have hcut := List.rdropWhile_append_rtakeWhile (p := (· == '.'))
    (l := (t ++ (l ++ '-' :: g)).takeWhile isTokenChar)
  rw [← tokenOf, h, hrun] at hcut
  have hdots := List.append_cancel_left hcut
  have hmem : '-' ∈ (t ++ (l ++ '-' :: g.takeWhile isTokenChar)).rtakeWhile (· == '.') := by
    rw [hdots]
    simp
  exact absurd (List.mem_rtakeWhile_imp hmem) (by decide)

theorem eq_dash_of_byte {a b : List Char} {d : Char}
    (h : (bytes (a ++ d :: b))[size a + d.utf8Size - 1]? = some 0x2D) : d = '-' := by
  obtain ⟨x, hx, hnarrow⟩ := byte_before a d b
  obtain rfl : x = 0x2D := Option.some.inj (hx.symm.trans h)
  obtain ⟨hd, hlt⟩ := hnarrow (by decide)
  exact (byte_inj (Nat.not_le.mpr hlt) (by decide : ¬Wide '-')).mp hd.symm

/-- Two dashes stand before an offset as characters, if as bytes. -/
theorem flagged_append {a z : List Char} :
    flagged (a ++ z) (size a) = true ↔ ∃ q, a = q ++ ['-', '-'] := by
  have hle : size a - 2 ≤ size a ∧ size a ≤ size (a ++ z) := by
    rw [size_append]
    omega
  rw [flagged, byteSlice, if_pos hle]
  simp only [Bool.and_eq_true, decide_eq_true_eq, beq_iff_eq]
  constructor
  · rintro ⟨htwo, hflag⟩
    rw [show size a - (size a - 2) = 2 by omega] at hflag
    have hget (n : ℕ) (hn : n < 2) : (bytes (a ++ z))[size a - 2 + n]? = some 0x2D := by
      rw [← List.getElem?_drop, ← List.getElem?_take_of_lt hn, hflag]
      rcases n with _ | _ | n
      · rfl
      · rfl
      · omega
    -- Read from the end: the last byte is a dash only if the last character is one.
    induction a using List.reverseRecOn with
    | nil => exact absurd htwo (by decide)
    | append_singleton a d _ =>
      have hsize : size (a ++ [d]) = size a + d.utf8Size := by simp
      obtain rfl : d = '-' := by
        refine eq_dash_of_byte (a := a) (b := z) ?_
        have hlast := hget 1 (by decide)
        rw [show size (a ++ [d]) - 2 + 1 = size a + d.utf8Size - 1 by omega] at hlast
        simpa using hlast
      have hone : ('-' : Char).utf8Size = 1 := rfl
      induction a using List.reverseRecOn with
      | nil => exact absurd htwo (by decide)
      | append_singleton a e _ =>
        obtain rfl : e = '-' := by
          refine eq_dash_of_byte (a := a) (b := '-' :: z) ?_
          have hfirst := hget 0 (by decide)
          have hsize' : size (a ++ [e]) = size a + e.utf8Size := by simp
          rw [show size (a ++ [e] ++ ['-']) - 2 + 0 = size a + e.utf8Size - 1 by omega] at hfirst
          simpa using hfirst
        exact ⟨a, by simp⟩
  · rintro ⟨q, rfl⟩
    have hsize : size (q ++ ['-', '-']) = size q + 2 := size_append q _
    refine ⟨by omega, ?_⟩
    rw [hsize, Nat.add_sub_cancel, Nat.add_sub_cancel_left, List.append_assoc, drop_bytes]
    rfl

theorem not_opensKey_of_key {z u : List Char} (h : z.map Char.toLower = "key-".toList ++ u) :
    ¬OpensKey z := by
  intro hkey
  obtain ⟨t, ht⟩ := tokenOf_isPrefix z
  have hpossible := possibleKey_of_opensKey (u := t.map Char.toLower) hkey
  rw [← List.map_append, ← ht, h] at hpossible
  cases hpossible

/-- The end of a private key's block has one word, and it is no key. -/
theorem not_word_in_close {e m z : List Char} (hm : m ≠ [])
    (hclose : (e ++ m).map Char.toUpper = " KEY-----".toList)
    (hstart : StartsWord e (m ++ z)) : ¬OpensKey (m ++ z) := by
  obtain ⟨d, m, rfl⟩ := List.exists_cons_of_ne_nil hm
  have hd : d.toUpper.isAlpha = true := by
    rw [isAlpha_toUpper]
    exact hstart.1
  have hlast (c : Char) (q : List Char) (he : e = q ++ [c]) : c.toUpper.isAlpha = false := by
    rw [isAlpha_toUpper]
    have hinner := hstart.2
    rw [he, List.getLast?_concat, Option.any_some, isInnerChar, Char.isAlphanum] at hinner
    simp only [Bool.or_eq_false_iff] at hinner
    exact hinner.1.1
  have hlist : " KEY-----".toList = [' ', 'K', 'E', 'Y', '-', '-', '-', '-', '-'] := rfl
  rw [hlist] at hclose
  -- A word starts with a letter, and the only letters here are those of `KEY`.
  rcases e with _ | ⟨c₁, _ | ⟨c₂, _ | ⟨c₃, _ | ⟨c₄, e⟩⟩⟩⟩
  · -- The end opens with a space.
    obtain ⟨hspace, -⟩ := List.cons.inj hclose
    rw [hspace] at hd
    cases hd
  · obtain ⟨-, hword⟩ := List.cons.inj hclose
    -- The word is `KEY-`, with which no key opens.
    refine not_opensKey_of_key (u := "----".toList ++ z.map Char.toLower) ?_
    have hlower := congrArg (List.map Char.toLower) hword
    have hsame : Char.toLower ∘ Char.toUpper = Char.toLower := funext toLower_toUpper
    rw [List.map_map, hsame] at hlower
    rw [List.map_append]
    exact congrArg (· ++ z.map Char.toLower) hlower
  · obtain ⟨-, hrest⟩ := List.cons.inj hclose
    obtain ⟨hc, -⟩ := List.cons.inj hrest
    have halpha := hlast c₂ [c₁] rfl
    rw [hc] at halpha
    cases halpha
  · obtain ⟨-, hrest⟩ := List.cons.inj hclose
    obtain ⟨-, hrest⟩ := List.cons.inj hrest
    obtain ⟨hc, -⟩ := List.cons.inj hrest
    have halpha := hlast c₃ [c₁, c₂] rfl
    rw [hc] at halpha
    cases halpha
  · obtain ⟨-, hrest⟩ := List.cons.inj hclose
    obtain ⟨-, hrest⟩ := List.cons.inj hrest
    obtain ⟨-, hrest⟩ := List.cons.inj hrest
    obtain ⟨-, hrest⟩ := List.cons.inj hrest
    have hmem : d.toUpper ∈ ['-', '-', '-', '-', '-'] := by
      rw [← hrest]
      simp
    rw [eq_false_of_any (p := Char.isAlpha) (by decide) hmem] at hd
    cases hd

/-- What stands further back does not matter for the start of a word. -/
theorem StartsWord.of_append {q e z : List Char} (h : StartsWord (q ++ e) z) : StartsWord e z := by
  refine ⟨h.1, ?_⟩
  have hlast := h.2
  rw [List.getLast?_append] at hlast
  cases he : e.getLast? with
  | none => rfl
  | some c =>
    rw [he] at hlast
    exact hlast

/-- What a text and what is shown of it have before a kept occurrence. -/
theorem last_of_sameBefore {s s' : List Char}
    (h : Parts.SameBefore KeyBlock redactedMarker s s') :
    s.getLast?.any isInnerChar = false ∧ s'.getLast?.any isKeyChar = false := by
  obtain ⟨rfl, rfl⟩ | ⟨x, y, secret, follow, rfl, rfl, hne, -, hclose⟩ := h
  · exact ⟨rfl, rfl⟩
  · obtain ⟨u, close, rfl, hmap⟩ := hclose.resolve_left hne
    -- A block ends with a dash and its marker with `>`, so neither runs on.
    refine ⟨?_, ?_⟩
    · have hlast : (close.map Char.toUpper).getLast? = some '-' := by
        rw [hmap]
        rfl
      rw [List.getLast?_map] at hlast
      obtain ⟨c, hc, hdash⟩ := Option.map_eq_some_iff.mp hlast
      rw [List.getLast?_append, List.getLast?_append, hc, eq_dash_of_toUpper hdash]
      rfl
    · rw [List.getLast?_append]
      rfl

theorem StartsWord.shown {s s' a z z' : List Char}
    (hb : Parts.SameBefore KeyBlock redactedMarker s s') (hz : z.head? = z'.head?) :
    StartsWord (s ++ a) z ↔ StartsWord (s' ++ a) z' := by
  obtain ⟨hs, hs'⟩ := last_of_sameBefore hb
  have hinner : s'.getLast?.any isInnerChar = false := by
    cases hlast : s'.getLast? with
    | none => rfl
    | some c =>
      rw [hlast, Option.any_some, isKeyChar, ← isInnerChar, Bool.or_eq_false_iff] at hs'
      exact hs'.1
  -- Only the last character before the word counts: one that is kept, or what a block ends with.
  rw [StartsWord, StartsWord, hz, List.getLast?_append, List.getLast?_append]
  cases a.getLast? with
  | none => rw [Option.none_or, Option.none_or, hs, hinner]
  | some c => rfl

/-- The first word of a run is one in what is shown, too. -/
theorem FirstWord.shown {s s' k x x' : List Char}
    (hb : Parts.SameBefore KeyBlock redactedMarker s s') (hx : x.head? = x'.head?)
    (h : FirstWord (s ++ k) x) : FirstWord (s' ++ k) x' := by
  refine ⟨(StartsWord.shown hb hx).mp h.1, ?_⟩
  intro a m heq hm hchars hstart
  rcases List.append_eq_append_iff.mp heq with ⟨d, rfl, rfl⟩ | ⟨d, rfl, rfl⟩
  · refine h.2 (s ++ d) m (by simp) hm hchars ?_
    exact (StartsWord.shown hb rfl).mpr hstart
  · -- The run would go on into the marker.
    induction d using List.reverseRecOn with
    | nil =>
      refine h.2 s k rfl (by simpa using hm) (by simpa using hchars) ?_
      have hstart' := (StartsWord.shown (a := []) (z := k) hb rfl).mpr (by simpa using hstart)
      simpa using hstart'
    | append_singleton d c _ =>
      have hlast := (last_of_sameBefore hb).2
      rw [← List.append_assoc, List.getLast?_concat, Option.any_some, hchars c (by simp)] at hlast
      cases hlast

/-- A key that the first word of a run opens with is not in a private key's block. -/
theorem exists_kept {s s' k b lead z : List Char}
    (hb : Parts.SameBefore KeyBlock redactedMarker s s') (heq : s ++ k = b ++ lead)
    (hlead : ∀ c ∈ lead, isKeyChar c = true) (hfirst : FirstWord b (lead ++ z))
    (hkey : OpensKey (lead ++ z)) : ∃ d, b = s ++ d ∧ k = d ++ lead := by
  by_cases hle : size s ≤ size b
  · exact exists_append_of_size_le heq hle
  · obtain ⟨m, hs, rfl⟩ := exists_append_of_size_le heq.symm (Nat.le_of_not_le hle)
    exfalso
    have hm : m ≠ [] := by
      rintro rfl
      rw [hs, List.append_nil] at hle
      exact hle le_rfl
    obtain ⟨rfl, rfl⟩ | ⟨x, y, secret, follow, rfl, rfl, hne, -, hclose⟩ := hb
    · exact hm (List.append_eq_nil_iff.mp hs.symm).2
    · obtain ⟨u, close, rfl, hmap⟩ := hclose.resolve_left hne
      have hsplit : (x ++ u) ++ close = b ++ m := by rw [← hs, List.append_assoc]
      rcases List.append_eq_append_iff.mp hsplit with ⟨e, rfl, rfl⟩ | ⟨e, -, rfl⟩
      · have hz : (m ++ k) ++ z = m ++ (k ++ z) := List.append_assoc m k z
        rw [hz] at hfirst hkey
        exact not_word_in_close hm hmap hfirst.1.of_append hkey
      · -- The run would go on into the space before the last word of the block.
        obtain ⟨c, close, rfl, hc, -⟩ := List.map_eq_cons_iff.mp hmap
        have hspace : c.toUpper.toNat = 32 := by
          rw [hc]
          rfl
        have hchar := hlead c (by simp)
        obtain rfl : c = ' ' := by
          apply Char.toNat_inj.mp
          rw [toNat_toUpper] at hspace
          have htoNat : (' ' : Char).toNat = 32 := rfl
          split_ifs at hspace <;> omega
        cases hchar

/-- Before and after a key's block is replaced the texts go on alike, with the same token. -/
theorem sameAfter_alike {f f' : List Char} (h : Parts.SameAfter KeyBlock redactedMarker f f') :
    (f = [] ∧ f' = []) ∨ ∃ g g', f = '-' :: g ∧ f' = '<' :: g' := by
  obtain hnil | ⟨secret, follow, y, rfl, rfl, ⟨s, rfl⟩, -⟩ := h
  · exact .inl hnil
  · exact .inr ⟨s ++ follow, "redacted>".toList ++ y, rfl, rfl⟩

/-- Beyond the token the texts may differ; the token, the word and what labels a value do not. -/
theorem alike_of_sameAfter {t l f f' : List Char} (lead : List Char)
    (h : Parts.SameAfter KeyBlock redactedMarker f f')
    (ht : tokenOf (t ++ (l ++ f)) = t) (hchars : ∀ c ∈ t, isTokenChar c = true) :
    let x := lead ++ (t ++ (l ++ f))
    let x' := lead ++ (t ++ (l ++ f'))
    tokenOf x = tokenOf x' ∧ x.takeWhile isKeyChar = x'.takeWhile isKeyChar ∧
      Alike (x.dropWhile isKeyChar) (x'.dropWhile isKeyChar) := by
  obtain ⟨rfl, rfl⟩ | ⟨g, g', rfl, rfl⟩ := sameAfter_alike h
  · exact ⟨rfl, rfl, .refl _⟩
  · obtain ⟨c, hc, hfalse⟩ := exists_not_isTokenChar ht hchars
    have hrun (g : List Char) : lead ++ (t ++ (l ++ g)) = (lead ++ (t ++ l)) ++ g := by simp
    have htoken : ∃ c ∈ lead ++ (t ++ l), isTokenChar c = false := ⟨c, by simp [hc], hfalse⟩
    have hkey : ∃ c ∈ lead ++ (t ++ l), isKeyChar c = false := by
      refine ⟨c, by simp [hc], ?_⟩
      by_contra htrue
      rw [Bool.not_eq_false] at htrue
      rw [isTokenChar_of_isKeyChar htrue] at hfalse
      cases hfalse
    refine ⟨?_, ?_, ?_⟩
    · rw [hrun, hrun, tokenOf, tokenOf, takeWhile_append_of_exists htoken,
        takeWhile_append_of_exists htoken]
    · rw [hrun, hrun, takeWhile_append_of_exists hkey, takeWhile_append_of_exists hkey]
    · rw [hrun, hrun, dropWhile_append_of_exists hkey, dropWhile_append_of_exists hkey]
      exact (Alike.apart g g').append _

/-- A word that is a flag in what is shown is one in the text. -/
theorem flag_of_shown {s s' k : List Char}
    (hb : Parts.SameBefore KeyBlock redactedMarker s s')
    (h : ∃ q, s' ++ k = q ++ ['-', '-']) : ∃ q, s ++ k = q ++ ['-', '-'] := by
  obtain ⟨q, hq⟩ := h
  have hlast (c : Char) (r : List Char) (hr : s' = r ++ [c]) : isKeyChar c = false := by
    have hfalse := (last_of_sameBefore hb).2
    rwa [hr, List.getLast?_concat, Option.any_some] at hfalse
  -- The marker ends with no dash, so both dashes of the flag are kept.
  induction k using List.reverseRecOn with
  | nil =>
    have hdash := hlast '-' (q ++ ['-']) (by rw [← List.append_nil s', hq]; simp)
    cases hdash
  | append_singleton k c _ =>
    have hsplit : (s' ++ k) ++ [c] = (q ++ ['-']) ++ ['-'] := by
      rw [List.append_assoc, hq, List.append_assoc]
      rfl
    obtain ⟨hk, hc⟩ := List.append_inj' hsplit rfl
    induction k using List.reverseRecOn with
    | nil =>
      have hdash := hlast '-' q (by rw [← List.append_nil s', hk])
      cases hdash
    | append_singleton k d _ =>
      rw [← List.append_assoc] at hk
      obtain ⟨-, hd⟩ := List.append_inj' hk rfl
      exact ⟨s ++ k, by rw [hc, hd]; simp⟩

theorem labelledRange_shown {s s' k x x' : List Char}
    (hb : Parts.SameBefore KeyBlock redactedMarker s s')
    (hword : x.takeWhile isKeyChar = x'.takeWhile isKeyChar)
    (hrest : Alike (x.dropWhile isKeyChar) (x'.dropWhile isKeyChar))
    (h : labelledRange ((s ++ k) ++ x) (size (s ++ k)) (size (s ++ k) + spanSize isKeyChar x)
      (wordOf x) = .ok none) :
    labelledRange ((s' ++ k) ++ x') (size (s' ++ k)) (size (s' ++ k) + spanSize isKeyChar x')
      (wordOf x') = .ok none := by
  have hcut := List.takeWhile_append_dropWhile (p := isKeyChar) (l := x)
  have hcut' := List.takeWhile_append_dropWhile (p := isKeyChar) (l := x')
  have hspot : Spot ((s ++ k) ++ x) ((s' ++ k) ++ x') (size (s ++ k) + spanSize isKeyChar x)
      (size (s' ++ k) + spanSize isKeyChar x') :=
    ⟨(s ++ k) ++ x.takeWhile isKeyChar, x.dropWhile isKeyChar,
      (s' ++ k) ++ x'.takeWhile isKeyChar, x'.dropWhile isKeyChar,
      by rw [List.append_assoc _ _ (x.dropWhile _), hcut],
      by rw [List.append_assoc _ _ (x'.dropWhile _), hcut'], size_append _ _, size_append _ _,
      hrest⟩
  have hflag : flagged ((s' ++ k) ++ x') (size (s' ++ k)) = true →
      flagged ((s ++ k) ++ x) (size (s ++ k)) = true := by
    rw [flagged_append, flagged_append]
    exact flag_of_shown hb
  have hle (a b : List Char) : size a ≤ size (a ++ b) := by
    rw [size_append]
    exact Nat.le_add_right _ _
  obtain ⟨r, r', hr, hr', -, hnone⟩ :=
    labelledRange_both (wordOf x) hspot (hle _ _) (hle _ _) hflag
  have hsame : wordOf x' = wordOf x := by rw [wordOf, wordOf, hword]
  rw [hsame, hr', hnone (Except.ok.inj (hr.symm.trans h))]

/-! ### Keys that are redacted -/

/-- A provider's key stands after `before`, where a word starts and the text goes on with `z`. -/
def KeyAt (before z : List Char) : Prop := StartsWord before z ∧ OpensKey z

instance (before z : List Char) : Decidable (KeyAt before z) := inferInstanceAs (Decidable (_ ∧ _))

/-- The occurrence of `t` after `before` comes through both loops of `redact_tool_secrets`. -/
def Survives (before t raw : List Char) : Prop :=
  ∃ keys secrets b c, keyParts raw = .ok keys ∧ keys.Keeps redactedMarker t before b ∧
    secretParts (keys.shown redactedMarker) = .ok secrets ∧ secrets.Keeps redactedMarker t b c

/-- What survives is in the output. -/
theorem Survives.mem_output {before t raw : List Char} (h : Survives before t raw) :
    ∃ c d, redactToolSecrets raw = .ok (c ++ (t ++ d)) := by
  obtain ⟨keys, secrets, b, c, hkeys, -, hsecrets, hkeeps⟩ := h
  obtain ⟨keys', secrets', hkeys', -, -, hsecrets', -, hout⟩ := redactToolSecrets_parts raw
  obtain rfl : keys = keys' := Except.ok.inj (hkeys.symm.trans hkeys')
  obtain rfl : secrets = secrets' := Except.ok.inj (hsecrets.symm.trans hsecrets')
  obtain ⟨d, hd⟩ := hkeeps.shown
  exact ⟨c, d, by rw [hout, hd]⟩

/-- The walk looks for a key where the run of letters, digits, `_` and `-` has its first word. The
key that stands after `before` is redacted with the token at that word: the word labels no value,
and its token is itself a key. -/
def Examined (before z : List Char) : Prop :=
  ∃ b lead, before = b ++ lead ∧ (∀ c ∈ lead, isKeyChar c = true) ∧ FirstWord b (lead ++ z) ∧
    labelledRange (before ++ z) (size b) (size b + spanSize isKeyChar (lead ++ z))
      (wordOf (lead ++ z)) = .ok none ∧ OpensKey (lead ++ z)

/-- A key that labels a value is not redacted either; only the value is. -/
example : KeyAt [] "sk-my-password: hunter2".toList ∧
    Survives [] "sk-my-password".toList "sk-my-password: hunter2".toList := by
  refine ⟨by decide, .rest "sk-my-password: hunter2".toList,
    .cut "sk-my-password: ".toList "hunter2".toList (.rest []), [], [], rfl, ?_, rfl, ?_⟩
  · exact ⟨rfl, ": hunter2".toList, rfl⟩
  · exact .inl ⟨rfl, ": ".toList, rfl⟩

end Sysknife.Brain
