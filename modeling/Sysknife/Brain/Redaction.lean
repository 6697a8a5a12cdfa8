import Sysknife.Brain.ToolSecrets
import Sysknife.Lib.Pieces

/-!
# What redaction takes out of a text

The two loops of `redact_tool_secrets` write a text with a marker for each secret they find. The
output does not tell which pieces were replaced, so `keyParts` and `secretParts` run the same
rounds and take the text apart instead.

* `redactKeysFrom_succ`, `redactFrom_succ`: a round of each loop.
* `redactToolSecrets_parts`: what is returned is what is shown of the parts.
* `redactToolSecrets_spec`: the walk ends, never panics, and its result is `Redacted`.
-/

namespace Sysknife.Brain

open Slices Pieces

/-- `out` is `raw` with some pieces replaced by the marker. -/
inductive Redacted : List Char → List Char → Prop
  | keep (t : List Char) : Redacted t t
  | cut (kept secret : List Char) {rest out : List Char} (h : Redacted rest out) :
    Redacted (kept ++ (secret ++ rest)) (kept ++ (redactedMarker ++ out))

theorem redacted_parts (p : Parts Char) : Redacted p.source (p.shown redactedMarker) := by
  induction p with
  | rest kept => exact .keep kept
  | cut kept secret more ih => exact .cut kept secret ih

/-- The parts are those of the text from `copied` on. -/
def PartsFrom (raw : List Char) (copied : ℕ) (p : Parts Char) : Prop :=
  ∃ a, raw = a ++ p.source ∧ size a = copied

/-- What is left from `copied` on is kept. -/
theorem restFrom_returns {raw : List Char} {copied : ℕ} (h : Boundary raw copied) :
    Returns (sliceFrom raw copied) fun rest => PartsFrom raw copied (.rest rest) :=
  (sliceFrom_returns h).mono fun _ h => h

/-- What stands up to a secret is kept, and the secret is cut out. -/
theorem cutFrom_returns {raw : List Char} {copied start stop : ℕ}
    {x : Except Panic (Parts Char)} {Q : Parts Char → Prop} (hcopied : Boundary raw copied)
    (hstart : Boundary raw start) (hstop : Boundary raw stop) (hle : copied ≤ start)
    (hlt : start ≤ stop) (hmore : Returns x fun p => PartsFrom raw stop p ∧ Q p) :
    Returns (do
      let kept ← slice raw copied start
      let secret ← slice raw start stop
      let more ← x
      return .cut kept secret more) fun p => PartsFrom raw copied p ∧
        ∃ kept secret more, p = .cut kept secret more ∧ slice raw copied start = .ok kept ∧
          Q more ∧ ∃ a, raw = a ++ (secret ++ more.source) ∧ size a = start ∧
            start + size secret = stop := by
  obtain ⟨a, kept, b, hraw, ha, hkept⟩ := hcopied.between hstart hle
  have hslice : slice raw copied start = .ok kept := by
    rw [hraw, ← ha, ← hkept]
    exact slice_append a kept b
  obtain ⟨c, secret, d, hraw', hc, hsecret⟩ := hstart.between hstop hlt
  have hslice' : slice raw start stop = .ok secret := by
    rw [hraw', ← hc, ← hsecret]
    exact slice_append c secret d
  -- The three slices are taken at the same offsets, so they cut the text into the same pieces.
  obtain ⟨rfl, rfl⟩ : c = a ++ kept ∧ secret ++ d = b :=
    append_inj_of_size (by rw [← hraw', hraw, List.append_assoc]) (by rw [hc, size_append, hkept])
  obtain ⟨more, rfl, ⟨e, he, hesize⟩, hQ⟩ := hmore
  obtain ⟨rfl, rfl⟩ : e = (a ++ kept) ++ secret ∧ more.source = d :=
    append_inj_of_size (by rw [← he, hraw']; simp) (by rw [hesize, size_append, hsecret])
  rw [hslice, ok_bind, hslice', ok_bind, ok_bind]
  refine Returns.ok ⟨⟨a, hraw, ha⟩, kept, secret, more, rfl, rfl, hQ, a ++ kept, hraw', hc, ?_⟩
  rw [← hc, hsecret]

/-! ### The search for private keys -/

/-- One search for a private key: the header that is found, and where the key ends that it opens,
unless it is the header of something else. -/
def nextKey (raw upper : List Char) (search : ℕ) : Except Panic (Option (ℕ × Option ℕ)) := do
  let hay ← sliceFrom upper search
  match findText "-----BEGIN ".toList hay with
  | none => return none
  | some offset =>
    let start := search + offset
    let labelStart := start + 11
    let hay ← sliceFrom upper labelStart
    match findText "-----".toList hay with
    | none => return none
    | some offset =>
      let labelEnd := labelStart + offset
      let label ← slice upper labelStart labelEnd
      let bodyStart := labelEnd + 5
      if !closes "PRIVATE KEY" label || !label.all fun c => c.isUpper || c == ' ' then
        return some (start, none)
      else
        let endMarker := "-----END ".toList ++ label ++ "-----".toList
        let hay ← sliceFrom upper bodyStart
        return some (start, some (keyStop raw hay endMarker bodyStart))

/-- A round of `redact_private_keys` is one search, and what is written for what it finds. -/
theorem redactKeysFrom_succ (raw upper : List Char) (fuel search copied : ℕ) (out : List Char) :
    redactKeysFrom raw upper (fuel + 1) search copied out = (do
      match ← nextKey raw upper search with
      | none =>
        let rest ← sliceFrom raw copied
        return out ++ rest
      | some (start, none) => redactKeysFrom raw upper fuel (start + 1) copied out
      | some (start, some stop) =>
        let kept ← slice raw copied start
        redactKeysFrom raw upper fuel stop stop (out ++ kept ++ redactedMarker)) := by
  rw [redactKeysFrom, nextKey, bind_assoc]
  congr 1
  funext hay
  cases findText "-----BEGIN ".toList hay with
  | none => rfl
  | some offset =>
    simp only [bind_assoc]
    congr 1
    funext hay
    cases findText "-----".toList hay with
    | none => rfl
    | some offset =>
      simp only [bind_assoc]
      congr 1
      funext label
      split_ifs
      · rfl
      · simp only [bind_assoc]
        rfl

/-- The text taken apart at its private keys, from `copied` on. -/
def keyPartsFrom (raw upper : List Char) : ℕ → ℕ → ℕ → Except Panic (Parts Char)
  | 0, _, _ => .error .diverges
  | fuel + 1, search, copied => do
    match ← nextKey raw upper search with
    | none =>
      let rest ← sliceFrom raw copied
      return .rest rest
    | some (start, none) => keyPartsFrom raw upper fuel (start + 1) copied
    | some (start, some stop) =>
      let kept ← slice raw copied start
      let secret ← slice raw start stop
      let more ← keyPartsFrom raw upper fuel stop stop
      return .cut kept secret more

def keyParts (raw : List Char) : Except Panic (Parts Char) :=
  keyPartsFrom raw (raw.map Char.toUpper) (size raw + 1) 0 0

/-- A private key opens with a dash, and unless the text ends with it, closes as its end marker
does. -/
def KeyBlock (secret follow : List Char) : Prop :=
  (∃ s, secret = '-' :: s) ∧
    (follow = [] ∨ ∃ s close, secret = s ++ close ∧ close.map Char.toUpper = " KEY-----".toList)

/-- A text found from a boundary on stands between boundaries. -/
theorem boundary_found {raw hay needle : List Char} {i n : ℕ}
    (hhay : ∃ a, raw = a ++ hay ∧ size a = i) (h : findText needle hay = some n) :
    ∃ a b, raw = a ++ (needle ++ b) ∧ size a = i + n := by
  obtain ⟨a, rfl, rfl⟩ := hhay
  obtain ⟨p, q, rfl, rfl⟩ := findText_eq_some h
  exact ⟨a ++ p, q, by rw [List.append_assoc], size_append a p⟩

theorem boundary_of_found {raw needle a b : List Char} {i : ℕ} (h : raw = a ++ (needle ++ b))
    (hsize : size a = i) : Boundary raw i ∧ Boundary raw (i + size needle) := by
  subst h hsize
  refine ⟨boundary_size_append a _, a ++ needle, b, by rw [List.append_assoc], ?_⟩
  exact size_append a needle

theorem keyStop_spec {raw hay : List Char} (endMarker : List Char) {bodyStart : ℕ}
    (hhay : ∃ a, raw.map Char.toUpper = a ++ hay ∧ size a = bodyStart) :
    Boundary raw (keyStop raw hay endMarker bodyStart) ∧
      bodyStart ≤ keyStop raw hay endMarker bodyStart := by
  rw [keyStop]
  cases hend : findText endMarker hay with
  | none =>
    obtain ⟨a, heq, rfl⟩ := hhay
    have hle : size a ≤ size (raw.map Char.toUpper) := (heq ▸ boundary_size_append a hay).le
    rw [size_map toUpper_utf8Size] at hle
    exact ⟨boundary_size raw, hle⟩
  | some offset =>
    obtain ⟨a, b, heq, hsize⟩ := boundary_found hhay hend
    obtain ⟨-, hboundary⟩ := boundary_of_found heq hsize
    have hle : bodyStart ≤ bodyStart + offset + size endMarker := by omega
    exact ⟨hboundary.of_map toUpper_utf8Size, hle⟩

theorem eq_dash_of_toUpper {c : Char} (h : c.toUpper = '-') : c = '-' := by
  have hupper := toNat_toUpper c
  have hdash : ('-' : Char).toNat = 45 := rfl
  rw [h, hdash] at hupper
  apply Char.toNat_inj.mp
  split_ifs at hupper <;> omega

/-- A private key's block ends with its end marker, or with the text. -/
theorem keyBlock_of_marker {raw a secret b hay label : List Char} {bodyStart : ℕ}
    (hraw : raw = a ++ (secret ++ b)) (hopen : ∃ s, secret = '-' :: s)
    (hhay : ∃ c, raw.map Char.toUpper = c ++ hay ∧ size c = bodyStart)
    (hlabel : closes "PRIVATE KEY" label = true) (hbody : size a + 9 ≤ bodyStart)
    (hstop : size a + size secret =
      keyStop raw hay ("-----END ".toList ++ label ++ "-----".toList) bodyStart) :
    KeyBlock secret b := by
  refine ⟨hopen, ?_⟩
  rw [keyStop] at hstop
  cases hend : findText ("-----END ".toList ++ label ++ "-----".toList) hay with
  | none =>
    rw [hend, hraw] at hstop
    simp only [size_append] at hstop
    exact .inl (size_eq_zero (by omega))
  | some offset =>
    rw [hend] at hstop
    obtain ⟨c, d, hupper, hc⟩ := boundary_found hhay hend
    obtain ⟨l, rfl⟩ := List.isSuffixOf_iff_suffix.mp hlabel
    right
    -- Both sides are the text in capital letters, cut where the block ends.
    have hsplit : (a ++ secret).map Char.toUpper ++ b.map Char.toUpper =
        (c ++ ("-----END ".toList ++ l ++ "PRIVATE".toList) ++ " KEY-----".toList) ++ d := by
      rw [← List.map_append, List.append_assoc, ← hraw, hupper]
      simp
    obtain ⟨hmap, -⟩ := append_inj_of_size hsplit (by
      rw [size_map toUpper_utf8Size, size_append, hstop]
      simp only [size_append, hc]
      have hkey : size "PRIVATE KEY".toList = size "PRIVATE".toList + 4 := rfl
      have hclose : size " KEY-----".toList = 4 + size "-----".toList := rfl
      omega)
    obtain ⟨u, close, hu, hfirst, hclose⟩ := List.map_eq_append_iff.mp hmap
    have hnine : size close = 9 := by
      rw [← size_map toUpper_utf8Size, hclose]
      rfl
    -- The end marker stands after the header, so its last nine bytes are within the block.
    rcases List.append_eq_append_iff.mp hu with ⟨s, rfl, rfl⟩ | ⟨s, rfl, rfl⟩
    · exact ⟨s, close, rfl, hclose⟩
    · have hs : s = [] := by
        refine size_eq_zero ?_
        simp only [size_append] at hnine hstop hbody
        omega
      subst hs
      exact ⟨[], secret, rfl, hclose⟩

/-- Each search moves on: past the opening of a header, or past the key it opens. -/
theorem nextKey_returns {raw : List Char} {search : ℕ} (h : Boundary raw search) :
    Returns (nextKey raw (raw.map Char.toUpper) search) fun found =>
      ∀ start stop, found = some (start, stop) → search ≤ start ∧ Boundary raw start ∧
        Boundary raw (start + 1) ∧ ∀ n ∈ stop, start < n ∧ Boundary raw n ∧
          ∀ a secret b, raw = a ++ (secret ++ b) → size a = start → start + size secret = n →
            KeyBlock secret b := by
  rw [nextKey]
  refine (sliceFrom_returns (h.map toUpper_utf8Size)).bind ?_
  intro hay hhay
  cases hbegin : findText "-----BEGIN ".toList hay with
  | none =>
    refine Returns.ok ?_
    intro start stop heq
    cases heq
  | some offset =>
    obtain ⟨p, q, hupper, hp⟩ := boundary_found hhay hbegin
    obtain ⟨hstart, hlabelStart⟩ := boundary_of_found hupper hp
    have hnext : Boundary (raw.map Char.toUpper) (search + offset + 1) := by
      rw [hupper, ← hp]
      exact boundary_succ (by decide)
    refine (sliceFrom_returns hlabelStart).bind ?_
    intro hay hhay
    cases hdashes : findText "-----".toList hay with
    | none =>
      refine Returns.ok ?_
      intro start stop heq
      cases heq
    | some length =>
      obtain ⟨p', q', hupper', hp'⟩ := boundary_found hhay hdashes
      obtain ⟨hlabelEnd, hbody⟩ := boundary_of_found hupper' hp'
      refine (slice_returns hlabelStart hlabelEnd (Nat.le_add_right _ _)).bind ?_
      intro label _
      split_ifs with hother
      · refine Returns.ok ?_
        rintro start stop ⟨⟩
        refine ⟨Nat.le_add_right _ _, hstart.of_map toUpper_utf8Size,
          hnext.of_map toUpper_utf8Size, ?_⟩
        intro n hn
        cases hn
      · refine (sliceFrom_returns hbody).bind ?_
        intro hay hhay
        obtain ⟨hstop, hmoves⟩ :=
          keyStop_spec ("-----END ".toList ++ label ++ "-----".toList) hhay
        refine Returns.ok ?_
        rintro start stop ⟨⟩
        refine ⟨Nat.le_add_right _ _, hstart.of_map toUpper_utf8Size,
          hnext.of_map toUpper_utf8Size, ?_⟩
        rintro n ⟨⟩
        have hbegins : size "-----BEGIN ".toList = 11 := rfl
        have hpast : search + offset + 11 ≤ search + offset + size "-----BEGIN ".toList + length +
            size "-----".toList := by omega
        have hlong : search + offset < keyStop raw hay
            ("-----END ".toList ++ label ++ "-----".toList) (search + offset + 11 + length + 5) :=
          Nat.lt_of_lt_of_le (by omega) hmoves
        refine ⟨hlong, hstop, ?_⟩
        intro a secret b hraw ha hsecret
        have hlabel : closes "PRIVATE KEY" label = true := by
          by_contra hclose
          simp [hclose] at hother
        refine keyBlock_of_marker hraw ?_ hhay hlabel (by omega) (by rw [ha]; exact hsecret)
        -- The header stands at the start, so the block opens as the header does.
        have hmap : a.map Char.toUpper ++ (secret ++ b).map Char.toUpper =
            p ++ ("-----BEGIN ".toList ++ q) := by
          rw [← List.map_append, ← hraw, hupper]
        obtain ⟨-, hopen⟩ := append_inj_of_size hmap (by
          rw [size_map toUpper_utf8Size, ha, hp])
        cases secret with
        | nil =>
          rw [← hsecret] at hlong
          exact absurd hlong (Nat.lt_irrefl _)
        | cons c s =>
          obtain ⟨hc, -⟩ := List.cons.inj hopen
          exact ⟨s, by rw [eq_dash_of_toUpper hc]⟩

/-- **The text is taken apart at its private keys**, and what is shown of its parts is written. -/
theorem keyPartsFrom_returns {raw : List Char} {fuel search copied : ℕ}
    (hfuel : size raw < search + fuel) (hsearch : Boundary raw search)
    (hcopied : Boundary raw copied) (hle : copied ≤ search) :
    Returns (keyPartsFrom raw (raw.map Char.toUpper) fuel search copied) fun p =>
      PartsFrom raw copied p ∧ p.Each KeyBlock ∧
        ∀ out, redactKeysFrom raw (raw.map Char.toUpper) fuel search copied out =
          .ok (out ++ p.shown redactedMarker) := by
  induction fuel generalizing search copied with
  | zero =>
    have hsize := hsearch.le
    omega
  | succ fuel ih =>
    obtain ⟨found, hfound, hspec⟩ := nextKey_returns hsearch
    rw [keyPartsFrom]
    simp only [redactKeysFrom_succ, hfound, ok_bind]
    cases found with
    | none =>
      obtain ⟨rest, hrest, hparts⟩ := restFrom_returns hcopied
      simp only [hrest, ok_bind]
      exact Returns.ok ⟨hparts, trivial, fun out => rfl⟩
    | some header =>
      obtain ⟨start, stop⟩ := header
      obtain ⟨hafter, hstart, hnext, hkey⟩ := hspec start stop rfl
      cases stop with
      -- The header of something else: the search moves on, and nothing is copied.
      | none => exact ih (by omega) hnext hcopied (by omega)
      | some stop =>
        obtain ⟨hlt, hstop, hblock⟩ := hkey stop rfl
        refine (cutFrom_returns hcopied hstart hstop (by omega) hlt.le
          (ih (by omega) hstop hstop le_rfl)).mono ?_
        rintro p ⟨hparts, kept, secret, more, rfl, hkept, ⟨heach, hmore⟩, a, hraw, ha, hsize⟩
        refine ⟨hparts, ⟨hblock a secret more.source hraw ha hsize, heach⟩, ?_⟩
        intro out
        simp only [hkept, ok_bind, hmore]
        simp [Parts.shown]

theorem keyParts_returns (raw : List Char) :
    Returns (keyParts raw) fun p => p.source = raw ∧ p.Each KeyBlock ∧
      redactPrivateKeys raw = .ok (p.shown redactedMarker) := by
  have hzero := boundary_zero raw
  refine (keyPartsFrom_returns (by omega) hzero hzero le_rfl).mono ?_
  rintro p ⟨⟨a, hraw, ha⟩, heach, hout⟩
  obtain rfl := size_eq_zero ha
  exact ⟨hraw.symm, heach, hout []⟩

/-! ### The walk over words -/

/-- One round of the loop of `redact_tool_secrets`: what is replaced, where the loop goes on, and
the ends of the token. -/
def round (raw lower : List Char) (st : Scan) : Except Panic (Option (ℕ × ℕ) × ℕ × ℕ × ℕ) := do
  let rest ← sliceFrom raw st.i
  match rest with
  | [] => .error .unwrapNone
  | c :: _ =>
    let inside ← withinWord raw st.i
    if !c.isAlpha || inside then
      return (none, st.i + c.utf8Size, st.scannedTokenEnd, st.credentialTokenEnd)
    else
      let keyEnd := st.i + spanSize isKeyChar rest
      let found ← secretAt raw lower st keyEnd
      return (found.1, found.1.elim keyEnd Prod.snd, found.2)

theorem redactFrom_succ (raw lower : List Char) (fuel : ℕ) (st : Scan) :
    redactFrom raw lower (fuel + 1) st =
      if size raw ≤ st.i then (do
        let rest ← sliceFrom raw st.copied
        return st.out ++ rest)
      else (do
        let found ← round raw lower st
        match found.1 with
        | none =>
          redactFrom raw lower fuel
            { st with
              i := found.2.1, scannedTokenEnd := found.2.2.1, credentialTokenEnd := found.2.2.2 }
        | some (start, stop) =>
          let kept ← slice raw st.copied start
          redactFrom raw lower fuel
            { i := stop, copied := stop, scannedTokenEnd := found.2.2.1,
              credentialTokenEnd := found.2.2.2, out := st.out ++ kept ++ redactedMarker }) := by
  rw [redactFrom, round]
  split_ifs
  · rfl
  · rw [bind_assoc]
    congr 1
    funext rest
    cases rest with
    | nil => rfl
    | cons c rest =>
      simp only [bind_assoc]
      congr 1
      funext inside
      split_ifs
      · rfl
      · simp only [bind_assoc]
        congr 1
        funext found
        obtain ⟨range, ends⟩ := found
        cases range <;> rfl

/-- The text taken apart at the secrets of the walk, from `copied` on. -/
def secretPartsFrom (raw lower : List Char) : ℕ → Scan → Except Panic (Parts Char)
  | 0, _ => .error .diverges
  | fuel + 1, st =>
    if size raw ≤ st.i then do
      let rest ← sliceFrom raw st.copied
      return .rest rest
    else do
      let found ← round raw lower st
      match found.1 with
      | none =>
        secretPartsFrom raw lower fuel
          { st with
            i := found.2.1, scannedTokenEnd := found.2.2.1, credentialTokenEnd := found.2.2.2 }
      | some (start, stop) =>
        let kept ← slice raw st.copied start
        let secret ← slice raw start stop
        let more ← secretPartsFrom raw lower fuel
          { st with
            i := stop, copied := stop, scannedTokenEnd := found.2.2.1,
            credentialTokenEnd := found.2.2.2 }
        return .cut kept secret more

def secretParts (raw : List Char) : Except Panic (Parts Char) :=
  secretPartsFrom raw (raw.map Char.toLower) (size raw + 1)
    { i := 0, copied := 0, scannedTokenEnd := 0, credentialTokenEnd := 0, out := [] }

/-- Each round of the walk moves on: past a character, past a word, or past a secret. -/
theorem round_returns {raw : List Char} {st : Scan} (hi : Boundary raw st.i)
    (hend : st.i < size raw) (hdots : DotsBetween raw st.credentialTokenEnd st.scannedTokenEnd) :
    Returns (round raw (raw.map Char.toLower) st) fun found =>
      st.i < found.2.1 ∧ Boundary raw found.2.1 ∧
        DotsBetween raw found.2.2.2 found.2.2.1 ∧ RangeFrom raw st.i found.1 ∧
        ∀ p ∈ found.1, found.2.1 = p.2 := by
  rw [round]
  refine (sliceFrom_returns hi).bind ?_
  rintro rest ⟨a, hraw, ha⟩
  cases rest with
  | nil =>
    have hsize : size raw = st.i := by rw [hraw, List.append_nil, ha]
    omega
  | cons c rest =>
    have hnext : Boundary raw (st.i + c.utf8Size) := by
      rw [hraw, ← ha]
      exact (boundary_size_append [c] rest).append_left a
    have hpos := Char.utf8Size_pos c
    refine (withinWord_returns hi.le).bind ?_
    intro inside _
    by_cases hskip : (!c.isAlpha || inside) = true
    · rw [if_pos hskip]
      refine Returns.ok ⟨Nat.lt_add_of_pos_right hpos, hnext, hdots, rangeFrom_none _ _, ?_⟩
      intro p hp
      cases hp
    · rw [if_neg hskip]
      have halpha : c.isAlpha = true := by
        by_contra h
        simp [h] at hskip
      have hkey : isKeyChar c = true := by
        rw [isKeyChar, Char.isAlphanum, halpha]
        rfl
      -- A word is not empty, so that the round moves on.
      have hspan : 0 < spanSize isKeyChar (c :: rest) := by
        refine size_pos ?_
        rw [List.takeWhile_cons_of_pos hkey]
        exact List.cons_ne_nil _ _
      have hkeyEnd : Boundary raw (st.i + spanSize isKeyChar (c :: rest)) := by
        rw [hraw, ← ha]
        exact (boundary_spanSize _).append_left a
      refine (secretAt_returns hraw ha halpha hdots hkeyEnd (by omega)).bind ?_
      rintro ⟨range, ends⟩ ⟨hrange, hends⟩
      cases range with
      | none =>
        refine Returns.ok ⟨Nat.lt_add_of_pos_right hspan, hkeyEnd, hends, hrange, ?_⟩
        intro p hp
        cases hp
      | some p =>
        obtain ⟨hstart, hlt, -, hstop⟩ := hrange p rfl
        refine Returns.ok ⟨hstart.trans_lt hlt, hstop, hends, hrange, ?_⟩
        rintro _ ⟨⟩
        rfl

/-- **The text is taken apart at the secrets of the walk**, and what is shown of its parts is
written. -/
theorem secretPartsFrom_returns {raw : List Char} {fuel : ℕ} (st : Scan)
    (hfuel : size raw < st.i + fuel) (hi : Boundary raw st.i) (hcopied : Boundary raw st.copied)
    (hle : st.copied ≤ st.i)
    (hdots : DotsBetween raw st.credentialTokenEnd st.scannedTokenEnd) :
    Returns (secretPartsFrom raw (raw.map Char.toLower) fuel st) fun p =>
      PartsFrom raw st.copied p ∧
        ∀ out, redactFrom raw (raw.map Char.toLower) fuel { st with out := out } =
          .ok (out ++ p.shown redactedMarker) := by
  induction fuel generalizing st with
  | zero =>
    have hsize := hi.le
    omega
  | succ fuel ih =>
    rw [secretPartsFrom]
    simp only [redactFrom_succ]
    by_cases hend : size raw ≤ st.i
    · simp only [if_pos hend]
      obtain ⟨rest, hrest, hparts⟩ := restFrom_returns hcopied
      simp only [hrest, ok_bind]
      exact Returns.ok ⟨hparts, fun out => rfl⟩
    · simp only [if_neg hend]
      obtain ⟨⟨range, next, ends⟩, hfound, hmoves, hnext, hends, hrange, hstop⟩ :=
        round_returns hi (Nat.lt_of_not_le hend) hdots
      have hround (out : List Char) :
          round raw (raw.map Char.toLower) { st with out := out } = .ok (range, next, ends) :=
            hfound
      simp only [hfound, hround, ok_bind]
      cases range with
      | none =>
        exact ih { st with i := next, scannedTokenEnd := ends.1, credentialTokenEnd := ends.2 }
          (by simp only at hmoves ⊢; omega) hnext hcopied (by simp only at hmoves ⊢; omega) hends
      | some p =>
        obtain ⟨start, stop⟩ := p
        obtain ⟨hstart, hlt, hbstart, hbstop⟩ := hrange (start, stop) rfl
        simp only at hstart hlt hbstart hbstop
        -- After a secret both the walk and the copying go on at its end.
        let after : Scan :=
          { st with
            i := stop, copied := stop, scannedTokenEnd := ends.1, credentialTokenEnd := ends.2 }
        refine (cutFrom_returns hcopied hbstart hbstop (hle.trans hstart) hlt.le
          (ih after (by simp only [after]; omega) hbstop hbstop le_rfl hends)).mono ?_
        rintro p ⟨hparts, kept, secret, more, rfl, hkept, hmore, -⟩
        refine ⟨hparts, ?_⟩
        intro out
        simp only [hkept, ok_bind]
        refine (hmore _).trans ?_
        simp [Parts.shown]

theorem secretParts_returns (raw : List Char) :
    Returns (secretParts raw) fun p => p.source = raw ∧
      redactFrom raw (raw.map Char.toLower) (size raw + 1)
        { i := 0, copied := 0, scannedTokenEnd := 0, credentialTokenEnd := 0, out := [] } =
        .ok (p.shown redactedMarker) := by
  have hzero := boundary_zero raw
  refine (secretPartsFrom_returns _ (by simp only; omega) hzero hzero le_rfl
    (dotsBetween_self hzero)).mono ?_
  rintro p ⟨⟨a, hraw, ha⟩, hout⟩
  obtain rfl := size_eq_zero ha
  exact ⟨hraw.symm, hout []⟩

/-- **The text is taken apart twice**, at its private keys and then at the secrets of the walk,
and what is shown in the end is returned. -/
theorem redactToolSecrets_parts (raw : List Char) :
    ∃ keys secrets, keyParts raw = .ok keys ∧ keys.source = raw ∧ keys.Each KeyBlock ∧
      secretParts (keys.shown redactedMarker) = .ok secrets ∧
      secrets.source = keys.shown redactedMarker ∧
      redactToolSecrets raw = .ok (secrets.shown redactedMarker) := by
  obtain ⟨keys, hkeys, hsource, heach, hmid⟩ := keyParts_returns raw
  obtain ⟨secrets, hsecrets, hsource', hout⟩ := secretParts_returns (keys.shown redactedMarker)
  refine ⟨keys, secrets, hkeys, hsource, heach, hsecrets, hsource', ?_⟩
  rw [redactToolSecrets, hmid]
  exact hout

/-- **The walk ends, never slices a text within a character, and what it returns is the text with
some pieces replaced by the marker.** -/
theorem redactToolSecrets_spec (raw : List Char) :
    ∃ mid out, Redacted raw mid ∧ Redacted mid out ∧ redactToolSecrets raw = .ok out := by
  obtain ⟨keys, secrets, -, rfl, -, -, hsource, hout⟩ := redactToolSecrets_parts raw
  refine ⟨_, _, redacted_parts keys, ?_, hout⟩
  rw [← hsource]
  exact redacted_parts secrets

end Sysknife.Brain
