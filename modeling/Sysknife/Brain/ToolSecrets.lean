import Sysknife.Actions
import Sysknife.Lib.Slices

/-!
# Credentials in tool output

`redact_tool_secrets` walks a text by byte offsets and replaces what looks like a credential. A
slice at an offset within a character stops the program, so each function answers with what it
computes or with the `Panic` it ends in.

Each function returns when its offsets are boundaries, and the ranges it answers with are ranges
between boundaries (`RangeFrom`, `Found`).
-/

namespace Sysknife.Brain

open Slices

/-- Why code stops in the middle. -/
inductive Panic
  /-- A slice at an offset that is no boundary, or past the end. -/
  | badSlice
  /-- An index past the end of the bytes. -/
  | outOfRange
  /-- A missing character was unwrapped. -/
  | unwrapNone
  /-- A loop does not come to an end. -/
  | diverges
  deriving DecidableEq, Repr

/-- `&s[i..]` -/
def sliceFrom (s : List Char) (i : ℕ) : Except Panic (List Char) :=
  match cut i s with
  | some (_, rest) => .ok rest
  | none => .error .badSlice

/-- `&s[i..j]` -/
def slice (s : List Char) (i j : ℕ) : Except Panic (List Char) :=
  if j < i then .error .badSlice
  else
    match cut i s with
    | some (_, rest) =>
      match cut (j - i) rest with
      | some (mid, _) => .ok mid
      | none => .error .badSlice
    | none => .error .badSlice

/-- `s.as_bytes()[i]` -/
def byteAt (s : List Char) (i : ℕ) : Except Panic UInt8 :=
  match (bytes s)[i]? with
  | some b => .ok b
  | none => .error .outOfRange

/-- `&s.as_bytes()[i..j]` -/
def byteSlice (s : List Char) (i j : ℕ) : Except Panic (List UInt8) :=
  if i ≤ j ∧ j ≤ size s then .ok (((bytes s).drop i).take (j - i)) else .error .outOfRange

/-- `s.starts_with(needle)` -/
def opens (needle : String) (s : List Char) : Bool := needle.toList.isPrefixOf s

/-- `s.ends_with(needle)` -/
def closes (needle : String) (s : List Char) : Bool := needle.toList.isSuffixOf s

/-- `s.find(needle)`: the offset of the first occurrence. -/
def findText (needle : List Char) : List Char → Option ℕ
  | [] => if needle.isEmpty then some 0 else none
  | c :: s =>
    if needle.isPrefixOf (c :: s) then some 0 else (findText needle s).map (· + c.utf8Size)

/-- `s.find(|c| !p(c)).unwrap_or(s.len())` -/
def spanSize (p : Char → Bool) (s : List Char) : ℕ := size (s.takeWhile p)

/-- Does the text go on with one of the characters at an offset? -/
def goesOnWith (chars : List Char) (s : List Char) (i : ℕ) : Except Panic Bool := do
  let rest ← sliceFrom s i
  return rest.head?.any fun c => chars.contains c

/-! ### Recognising credentials -/

def redactedMarker : List Char := "<redacted>".toList

def keyPrefixes : List String :=
  ["sk-", "gsk_", "xai-", "ghp_", "github_pat_", "gho_", "ghu_", "ghs_", "ghr_", "glpat-",
    "xoxb-", "xoxp-", "xoxa-", "xoxr-", "sg.", "key_live_", "key_test_", "sk_live_", "sk_test_",
    "rk_live_", "rk_test_", "hvs.", "hvb.", "npm_", "pypi-", "hf_"]

def sensitiveNames : List String :=
  ["password", "passwd", "pwd", "secret", "token", "key", "api_key", "apikey", "private_key",
    "access_key", "access_key_id", "credential", "credentials"]

/-- Does a field of this name hold a credential? -/
def sensitiveAssignmentKey (key : List Char) : Bool :=
  let key := key.map fun c => if c = '-' then '_' else c
  (sensitiveNames.any fun name => closes name key &&
    let stem := key.take (key.length - name.length)
    stem.isEmpty || closes "_" stem) ||
  closes "password" key || closes "apikey" key

def skipSpace (raw : List Char) (pos : ℕ) : Except Panic ℕ := do
  let rest ← sliceFrom raw pos
  return pos + spanSize (fun c => c == ' ' || c == '\t') rest

/-- Where a quoted value ends: at the closing quote or the end of the line. -/
def quotedOffset (quote : Char) (escaped : Bool) : List Char → Option ℕ
  | [] => none
  | c :: rest =>
    -- A value ends with its line, also when the quote is not closed.
    if c = '\r' ∨ c = '\n' then some 0
    else if escaped then (quotedOffset quote false rest).map (· + c.utf8Size)
    else if c = '\\' then (quotedOffset quote true rest).map (· + c.utf8Size)
    else if c = quote then some 0
    else (quotedOffset quote false rest).map (· + c.utf8Size)

/-- The characters of an unquoted value. -/
def isValueChar (c : Char) : Bool :=
  !(isWhitespace c || [',', ';', '\'', '"', '&', '<', '>', '}', ']', ')'].contains c)

/-- Where a value stands, without its quotes; an empty value is none. -/
def valueRange (raw : List Char) (start : ℕ) : Except Panic (Option (ℕ × ℕ)) := do
  let rest ← sliceFrom raw start
  match rest with
  | [] => return none
  | first :: _ =>
    if first = '\'' ∨ first = '"' then
      let rest ← sliceFrom raw (start + 1)
      match quotedOffset first false rest with
      | some offset => return if 0 < offset then some (start + 1, start + 1 + offset) else none
      | none => return if start + 1 < size raw then some (start + 1, size raw) else none
    else
      let stop := start + spanSize isValueChar rest
      return if start < stop then some (start, stop) else none

/-- ASCII letters, digits, `_` and `-` -/
def isBase64url (c : Char) : Bool := c.isAlphanum || c == '_' || c == '-'

/-- The parts of a token between dots. -/
def dotted (token : List Char) : List (List Char) := token.splitOn '.'

/-- Has the token the form of a provider's key? -/
def recognizableKey (token lower : List Char) : Bool :=
  -- The algorithms of security keys open as the keys of a provider do.
  if lower = "sk-ssh-ed25519".toList ∨ lower = "sk-ecdsa-sha2-nistp256".toList then false
  else if opens "SG." token then
    match dotted (token.drop 3) with
    | id :: secret :: more =>
      let secret := ['.'].intercalate (secret :: more)
      size id == 22 && size secret == 43 && id.all isBase64url && secret.all isBase64url
    | _ => false
  -- Names of variables open with `hf_` and `npm_` too, so that only the length tells a key.
  else if opens "hf_" token then
    size (token.drop 3) == 34 && (token.drop 3).all Char.isAlphanum
  else if opens "npm_" token then
    size (token.drop 4) == 36 && (token.drop 4).all Char.isAlphanum
  else if (keyPrefixes.filter fun stem => ! ["sg.", "hf_", "npm_"].contains stem).any fun stem =>
      opens stem lower && stem.length + 8 ≤ size token then true
  else if (opens "AKIA" token || opens "ASIA" token) && size token == 20 &&
      token.all Char.isAlphanum then true
  else if opens "AIza" token && size token == 39 then true
  -- A JWT has three segments; a word that merely opens with `eyJ` is none.
  else if !opens "eyJ" token then false
  else (dotted token).length == 3 &&
    (dotted token).all fun part => 8 ≤ size part && part.all isBase64url

/-! ### Private keys -/

/-- Where a private key ends: after its end marker, or with the text. -/
def keyStop (raw hay endMarker : List Char) (bodyStart : ℕ) : ℕ :=
  match findText endMarker hay with
  | none => size raw
  | some offset => bodyStart + offset + size endMarker

/-- The loop of `redact_private_keys`, which searches the text in capital letters. -/
def redactKeysFrom (raw upper : List Char) :
    ℕ → ℕ → ℕ → List Char → Except Panic (List Char)
  | 0, _, _, _ => .error .diverges
  | fuel + 1, search, copied, out => do
    let hay ← sliceFrom upper search
    match findText "-----BEGIN ".toList hay with
    | none =>
      let rest ← sliceFrom raw copied
      return out ++ rest
    | some offset =>
      let start := search + offset
      let labelStart := start + 11
      let hay ← sliceFrom upper labelStart
      match findText "-----".toList hay with
      | none =>
        let rest ← sliceFrom raw copied
        return out ++ rest
      | some offset =>
        let labelEnd := labelStart + offset
        let label ← slice upper labelStart labelEnd
        let bodyStart := labelEnd + 5
        if !closes "PRIVATE KEY" label || !label.all fun c => c.isUpper || c == ' ' then
          -- A header that is rejected may run into the next one, so only its first dash is passed.
          redactKeysFrom raw upper fuel (start + 1) copied out
        else
          let endMarker := "-----END ".toList ++ label ++ "-----".toList
          let hay ← sliceFrom upper bodyStart
          let stop := keyStop raw hay endMarker bodyStart
          let kept ← slice raw copied start
          redactKeysFrom raw upper fuel stop stop (out ++ kept ++ redactedMarker)

def redactPrivateKeys (raw : List Char) : Except Panic (List Char) :=
  redactKeysFrom raw (raw.map Char.toUpper) (size raw + 1) 0 0 []

/-! ### Labelled values and keys -/

/-- The value a sensitive label is followed by: after `=` or `:`, or after a flag and a space. -/
def assignedRange (raw : List Char) (i keyEnd : ℕ) : Except Panic (Option (ℕ × ℕ)) := do
  -- The name of a field may stand in quotes, of which the closing one follows it.
  let quoted ← goesOnWith ['\'', '"'] raw keyEnd
  let pos ← skipSpace raw (if quoted then keyEnd + 1 else keyEnd)
  let assigned ← goesOnWith ['=', ':'] raw pos
  if assigned then
    let start ← skipSpace raw (pos + 1)
    valueRange raw start
  else if 2 ≤ i then
    let flag ← byteSlice raw (i - 2) i
    let spaced ← goesOnWith [' ', '\t'] raw keyEnd
    if flag == [0x2D, 0x2D] && spaced then
      let start ← skipSpace raw keyEnd
      valueRange raw start
    else return none
  else return none

/-- Does a path stand at an offset? -/
def pathAt (raw : List Char) (start : ℕ) : Except Panic Bool := do
  let rest ← sliceFrom raw start
  return opens "/" rest || opens "~" rest || opens "./" rest || opens "../" rest

/-- The value a word labels as a credential. A path after a plain `key` is the file of a key. -/
def labelledRange (raw : List Char) (i keyEnd : ℕ) (key : List Char) :
    Except Panic (Option (ℕ × ℕ)) := do
  let spaced ← goesOnWith [' ', '\t'] raw keyEnd
  if key = "bearer".toList ∧ spaced then
    let start ← skipSpace raw keyEnd
    valueRange raw start
  else if sensitiveAssignmentKey key then
    let range ← assignedRange raw i keyEnd
    match range with
    | none => return none
    | some (start, stop) =>
      let path ← pathAt raw start
      return if key = "key".toList ∧ path then none else some (start, stop)
  else return none

/-- Where the loop stands. -/
structure Scan where
  i : ℕ
  copied : ℕ
  scannedTokenEnd : ℕ
  credentialTokenEnd : ℕ
  out : List Char

/-- The end of a token without the dots that close it. -/
def trimDots (raw : List Char) (i : ℕ) : ℕ → Except Panic ℕ
  | 0 => .ok 0
  | n + 1 =>
    if i < n + 1 then do
      let b ← byteAt raw n
      if b = 0x2E then trimDots raw i n else return n + 1
    else .ok (n + 1)

def possibleKey (lower : List Char) : Bool :=
  (keyPrefixes.any fun stem => opens stem lower) ||
    ["akia", "asia", "aiza", "eyj"].any fun stem => opens stem lower

def isTokenChar (c : Char) : Bool :=
  c.isAlphanum || ['_', '-', '.', '/', '+', '='].contains c

/-- The ends of the token at the offset; they are computed once for a token. -/
def tokenEnds (raw : List Char) (st : Scan) : Except Panic (ℕ × ℕ) := do
  -- A token with many places where a key could start is measured once.
  if st.scannedTokenEnd ≤ st.i then
    let rest ← sliceFrom raw st.i
    let scanned := st.i + spanSize isTokenChar rest
    let credential ← trimDots raw st.i scanned
    return (scanned, credential)
  else return (st.scannedTokenEnd, st.credentialTokenEnd)

/-- A key at the offset, and the ends of the token. -/
def tokenRange (raw lower : List Char) (st : Scan) :
    Except Panic (Option (ℕ × ℕ) × ℕ × ℕ) := do
  let rest ← sliceFrom lower st.i
  if possibleKey rest then
    let ends ← tokenEnds raw st
    let token ← slice raw st.i ends.2
    let low ← slice lower st.i ends.2
    return (if recognizableKey token low then some (st.i, ends.2) else none, ends)
  else return (none, st.scannedTokenEnd, st.credentialTokenEnd)

def isKeyChar (c : Char) : Bool := c.isAlphanum || c == '_' || c == '-'

/-- Is the offset within a word? -/
def withinWord (raw : List Char) (i : ℕ) : Except Panic Bool :=
  if 0 < i then do
    let b ← byteAt raw (i - 1)
    return (Char.ofNat b.toNat).isAlphanum || b == 0x5F
  else .ok false

/-- What to replace at a word: its value, or the key it is. -/
def secretAt (raw lower : List Char) (st : Scan) (keyEnd : ℕ) :
    Except Panic (Option (ℕ × ℕ) × ℕ × ℕ) := do
  let key ← slice lower st.i keyEnd
  let labelled ← labelledRange raw st.i keyEnd key
  match labelled with
  | some range => return (some range, st.scannedTokenEnd, st.credentialTokenEnd)
  | none => tokenRange raw lower st

/-- The loop of `redact_tool_secrets`. -/
def redactFrom (raw lower : List Char) : ℕ → Scan → Except Panic (List Char)
  | 0, _ => .error .diverges
  | fuel + 1, st =>
    if size raw ≤ st.i then do
      let rest ← sliceFrom raw st.copied
      return st.out ++ rest
    else do
      let rest ← sliceFrom raw st.i
      match rest with
      | [] => .error .unwrapNone
      | c :: _ =>
        let inside ← withinWord raw st.i
        if !c.isAlpha || inside then redactFrom raw lower fuel { st with i := st.i + c.utf8Size }
        else
          let keyEnd := st.i + spanSize isKeyChar rest
          let found ← secretAt raw lower st keyEnd
          match found.1 with
          | some (start, stop) =>
            let kept ← slice raw st.copied start
            redactFrom raw lower fuel
              { i := stop, copied := stop, scannedTokenEnd := found.2.1,
                credentialTokenEnd := found.2.2, out := st.out ++ kept ++ redactedMarker }
          | none =>
            redactFrom raw lower fuel
              { st with
                i := keyEnd, scannedTokenEnd := found.2.1, credentialTokenEnd := found.2.2 }

/-- Replace credentials by a marker. -/
def redactToolSecrets (raw : List Char) : Except Panic (List Char) := do
  let raw ← redactPrivateKeys raw
  redactFrom raw (raw.map Char.toLower) (size raw + 1)
    { i := 0, copied := 0, scannedTokenEnd := 0, credentialTokenEnd := 0, out := [] }

/-! ### Functions that return -/

/-- A computation returns, with a value that satisfies `Q`. -/
def Returns {α : Type} (x : Except Panic α) (Q : α → Prop) : Prop := ∃ a, x = .ok a ∧ Q a

theorem Returns.ok {α : Type} {Q : α → Prop} {a : α} (h : Q a) : Returns (.ok a) Q := ⟨a, rfl, h⟩

theorem Returns.bind {α β : Type} {x : Except Panic α} {f : α → Except Panic β} {P : α → Prop}
    {Q : β → Prop} (hx : Returns x P) (hf : ∀ a, P a → Returns (f a) Q) :
    Returns (x >>= f) Q := by
  obtain ⟨a, rfl, ha⟩ := hx
  exact hf a ha

theorem Returns.mono {α : Type} {x : Except Panic α} {P Q : α → Prop} (hx : Returns x P)
    (hPQ : ∀ a, P a → Q a) : Returns x Q := by
  obtain ⟨a, rfl, ha⟩ := hx
  exact ⟨a, rfl, hPQ a ha⟩

theorem sliceFrom_append (a b : List Char) : sliceFrom (a ++ b) (size a) = .ok b := by
  rw [sliceFrom, cut_size_append]

theorem slice_append (a m b : List Char) :
    slice (a ++ (m ++ b)) (size a) (size a + size m) = .ok m := by
  have hle : ¬size a + size m < size a := by omega
  rw [slice, if_neg hle, cut_size_append, Nat.add_sub_cancel_left]
  simp only [cut_size_append]

theorem sliceFrom_returns {s : List Char} {i : ℕ} (h : Boundary s i) :
    Returns (sliceFrom s i) fun rest => ∃ a, s = a ++ rest ∧ size a = i := by
  obtain ⟨a, b, rfl, rfl⟩ := h
  exact ⟨b, sliceFrom_append a b, a, rfl, rfl⟩

theorem slice_returns {s : List Char} {i j : ℕ} (hi : Boundary s i) (hj : Boundary s j)
    (hij : i ≤ j) : Returns (slice s i j) fun m =>
      ∃ a b, s = a ++ (m ++ b) ∧ size a = i ∧ size a + size m = j := by
  obtain ⟨a, m, b, rfl, rfl, rfl⟩ := hi.between hj hij
  exact ⟨m, slice_append a m b, a, b, rfl, rfl, rfl⟩

theorem byteSlice_returns {s : List Char} {i j : ℕ} (hij : i ≤ j) (hj : j ≤ size s) :
    Returns (byteSlice s i j) fun _ => True := by
  rw [byteSlice, if_pos ⟨hij, hj⟩]
  exact Returns.ok trivial

theorem byteAt_returns {s : List Char} {i : ℕ} (h : i < size s) :
    Returns (byteAt s i) fun _ => True := by
  rw [← length_bytes] at h
  rw [byteAt, List.getElem?_eq_getElem h]
  exact Returns.ok trivial

/-! ### Small and capital letters -/

theorem toNat_toUpper (c : Char) : c.toUpper.toNat =
    if 97 ≤ c.toNat ∧ c.toNat ≤ 122 then c.toNat - 32 else c.toNat := by
  have hval : c.toNat = c.val.toNat := rfl
  have h32 : ('A'.val - 'a'.val).toNat = 2 ^ 32 - 32 := rfl
  by_cases h : 'a'.val ≤ c.val ∧ c.val ≤ 'z'.val
  · have hlow : c.val.toNat ≤ 122 := h.2
    have hupp : 97 ≤ c.val.toNat := h.1
    have hletter : c.toUpper = ⟨c.val + ('A'.val - 'a'.val), _⟩ := dif_pos h
    rw [if_pos ⟨hupp, hlow⟩, hletter]
    show (c.val + ('A'.val - 'a'.val)).toNat = c.toNat - 32
    rw [UInt32.toNat_add]
    omega
  · have hnot : ¬(97 ≤ c.toNat ∧ c.toNat ≤ 122) := h
    have hsame : c.toUpper = c := dif_neg h
    rw [if_neg hnot, hsame]

theorem toNat_toLower (c : Char) : c.toLower.toNat =
    if 65 ≤ c.toNat ∧ c.toNat ≤ 90 then c.toNat + 32 else c.toNat := by
  have hval : c.toNat = c.val.toNat := rfl
  have h32 : ('a'.val - 'A'.val).toNat = 32 := rfl
  by_cases h : c.val ≥ 'A'.val ∧ c.val ≤ 'Z'.val
  · have hlow : c.val.toNat ≤ 90 := h.2
    have hupp : 65 ≤ c.val.toNat := h.1
    have hletter : c.toLower = ⟨c.val + ('a'.val - 'A'.val), _⟩ := dif_pos h
    rw [if_pos ⟨hupp, hlow⟩, hletter]
    show (c.val + ('a'.val - 'A'.val)).toNat = c.toNat + 32
    rw [UInt32.toNat_add]
    omega
  · have hnot : ¬(65 ≤ c.toNat ∧ c.toNat ≤ 90) := h
    have hsame : c.toLower = c := dif_neg h
    rw [if_neg hnot, hsame]

theorem toLower_utf8Size (c : Char) : c.toLower.utf8Size = c.utf8Size := by
  have hlower := toNat_toLower c
  by_cases h : 65 ≤ c.toNat ∧ c.toNat ≤ 90
  · have hnarrow : ¬Wide c := by
      rw [Wide]
      omega
    have hnarrow' : ¬Wide c.toLower := by
      rw [Wide, hlower, if_pos h]
      omega
    rw [utf8Size_of_not_wide hnarrow, utf8Size_of_not_wide hnarrow']
  · rw [if_neg h] at hlower
    rw [Char.toNat_inj.mp hlower]

theorem toUpper_utf8Size (c : Char) : c.toUpper.utf8Size = c.utf8Size := by
  have hupper := toNat_toUpper c
  by_cases h : 97 ≤ c.toNat ∧ c.toNat ≤ 122
  · have hnarrow : ¬Wide c := by
      rw [Wide]
      omega
    have hnarrow' : ¬Wide c.toUpper := by
      rw [Wide, hupper, if_pos h]
      omega
    rw [utf8Size_of_not_wide hnarrow, utf8Size_of_not_wide hnarrow']
  · rw [if_neg h] at hupper
    rw [Char.toNat_inj.mp hupper]

theorem toLower_toUpper (c : Char) : c.toUpper.toLower = c.toLower := by
  apply Char.toNat_inj.mp
  rw [toNat_toLower, toNat_toLower, toNat_toUpper]
  split_ifs <;> omega

theorem isAlpha_iff (c : Char) : c.isAlpha = true ↔
    (65 ≤ c.toNat ∧ c.toNat ≤ 90) ∨ (97 ≤ c.toNat ∧ c.toNat ≤ 122) := by
  have hletters : c.isAlpha = (decide (c.val ≥ 'A'.val ∧ c.val ≤ 'Z'.val) ||
      (decide (c.val ≥ 'a'.val) && decide (c.val ≤ 'z'.val))) := rfl
  simp only [hletters, Bool.or_eq_true, Bool.and_eq_true, decide_eq_true_eq,
    UInt32.le_iff_toNat_le, ge_iff_le]
  rfl

theorem isAlpha_toUpper (c : Char) : c.toUpper.isAlpha = c.isAlpha := by
  rw [Bool.eq_iff_iff, isAlpha_iff, isAlpha_iff, toNat_toUpper]
  split_ifs <;> omega

/-! ### Searches -/

/-- A text is found where it stands. -/
theorem findText_eq_some {needle s : List Char} {n : ℕ} (h : findText needle s = some n) :
    ∃ a b, s = a ++ (needle ++ b) ∧ size a = n := by
  induction s generalizing n with
  | nil =>
    rw [findText] at h
    split_ifs at h with hempty
    obtain rfl := Option.some.inj h
    obtain rfl := List.isEmpty_iff.mp hempty
    exact ⟨[], [], rfl, rfl⟩
  | cons c s ih =>
    rw [findText] at h
    split_ifs at h with hhere
    · obtain rfl := Option.some.inj h
      obtain ⟨b, hb⟩ := List.isPrefixOf_iff_prefix.mp hhere
      exact ⟨[], b, hb.symm, rfl⟩
    · obtain ⟨m, hm, rfl⟩ := Option.map_eq_some_iff.mp h
      obtain ⟨a, b, rfl, rfl⟩ := ih hm
      exact ⟨c :: a, b, rfl, by rw [size_cons, Nat.add_comm]⟩

theorem boundary_spanSize {s : List Char} (p : Char → Bool) : Boundary s (spanSize p s) :=
  boundary_takeWhile p s

/-- After a character of one byte the next offset is a boundary. -/
theorem boundary_succ {a b : List Char} {c : Char} (hc : ¬Wide c) :
    Boundary (a ++ c :: b) (size a + 1) := by
  refine ⟨a ++ [c], b, by rw [List.append_assoc]; rfl, ?_⟩
  rw [size_append, size_cons, size_nil, utf8Size_of_not_wide hc]

theorem goesOnWith_returns {raw chars : List Char} {i : ℕ}
    (hchars : (chars.all fun c => decide ¬Wide c) = true) (h : Boundary raw i) :
    Returns (goesOnWith chars raw i) fun r => r = true → Boundary raw (i + 1) := by
  refine (sliceFrom_returns h).bind ?_
  rintro rest ⟨a, rfl, rfl⟩
  refine Returns.ok ?_
  intro hhead
  cases rest with
  | nil => cases hhead
  | cons c b =>
    -- The character found is one of those looked for, and these have one byte each.
    have hc : c ∈ chars := by simpa using hhead
    exact boundary_succ (of_decide_eq_true (List.all_eq_true.mp hchars c hc))

theorem skipSpace_returns {raw : List Char} {pos : ℕ} (h : Boundary raw pos) :
    Returns (skipSpace raw pos) fun q => pos ≤ q ∧ Boundary raw q := by
  refine (sliceFrom_returns h).bind ?_
  rintro rest ⟨a, rfl, rfl⟩
  exact Returns.ok ⟨Nat.le_add_right _ _, (boundary_spanSize _).append_left a⟩

/-- A range that slices a text at boundaries, from an offset on. -/
def RangeFrom (raw : List Char) (i : ℕ) (range : Option (ℕ × ℕ)) : Prop :=
  ∀ p ∈ range, i ≤ p.1 ∧ p.1 < p.2 ∧ Boundary raw p.1 ∧ Boundary raw p.2

theorem rangeFrom_none (raw : List Char) (i : ℕ) : RangeFrom raw i none := by
  intro p hp
  cases hp

theorem rangeFrom_some {raw : List Char} {i start stop : ℕ} (hi : i ≤ start) (hlt : start < stop)
    (hstart : Boundary raw start) (hstop : Boundary raw stop) :
    RangeFrom raw i (some (start, stop)) := by
  intro p hp
  obtain rfl := Option.some.inj hp
  exact ⟨hi, hlt, hstart, hstop⟩

theorem RangeFrom.mono {raw : List Char} {i j : ℕ} {range : Option (ℕ × ℕ)}
    (h : RangeFrom raw j range) (hij : i ≤ j) : RangeFrom raw i range := by
  intro p hp
  obtain ⟨hj, hrest⟩ := h p hp
  exact ⟨hij.trans hj, hrest⟩

theorem rangeFrom_ite {raw : List Char} {i start stop : ℕ} {p : Prop} [Decidable p]
    (h : p → RangeFrom raw i (some (start, stop))) :
    RangeFrom raw i (if p then some (start, stop) else none) := by
  split_ifs with hp
  · exact h hp
  · exact rangeFrom_none raw i

theorem quotedOffset_boundary {quote : Char} {escaped : Bool} {s : List Char} {n : ℕ}
    (h : quotedOffset quote escaped s = some n) : Boundary s n := by
  induction s generalizing escaped n with
  | nil => cases h
  | cons c rest ih =>
    have hnext {e : Bool} {m : ℕ}
        (hm : (quotedOffset quote e rest).map (· + c.utf8Size) = some m) :
        Boundary (c :: rest) m := by
      obtain ⟨k, hk, rfl⟩ := Option.map_eq_some_iff.mp hm
      simpa [Nat.add_comm] using (ih hk).append_left [c]
    rw [quotedOffset] at h
    split_ifs at h
    · obtain rfl := Option.some.inj h
      exact boundary_zero _
    · exact hnext h
    · exact hnext h
    · obtain rfl := Option.some.inj h
      exact boundary_zero _
    · exact hnext h

theorem valueRange_returns {raw : List Char} {start : ℕ} (h : Boundary raw start) :
    Returns (valueRange raw start) (RangeFrom raw start) := by
  refine (sliceFrom_returns h).bind ?_
  rintro rest ⟨a, rfl, rfl⟩
  cases rest with
  | nil => exact Returns.ok (rangeFrom_none _ _)
  | cons first rest =>
    by_cases hquote : first = '\'' ∨ first = '"'
    · simp only [if_pos hquote]
      have hnarrow : ¬Wide first := by
        rcases hquote with rfl | rfl <;> decide
      have hsucc : Boundary (a ++ first :: rest) (size a + 1) := boundary_succ hnarrow
      refine (sliceFrom_returns hsucc).bind ?_
      rintro inner ⟨b, heq, hb⟩
      cases hoff : quotedOffset first false inner with
      | some offset =>
        have hstop : Boundary (a ++ first :: rest) (size a + 1 + offset) := by
          rw [heq, ← hb]
          exact (quotedOffset_boundary hoff).append_left b
        refine Returns.ok (rangeFrom_ite ?_)
        intro hpos
        exact rangeFrom_some (by omega) (by omega) hsucc hstop
      | none =>
        refine Returns.ok (rangeFrom_ite ?_)
        intro hlt
        exact rangeFrom_some (by omega) hlt hsucc (boundary_size _)
    · simp only [if_neg hquote]
      refine Returns.ok (rangeFrom_ite ?_)
      intro hlt
      exact rangeFrom_some le_rfl hlt h ((boundary_spanSize _).append_left a)

theorem assignedRange_returns {raw : List Char} {i keyEnd : ℕ} (hi : i ≤ size raw)
    (hend : Boundary raw keyEnd) :
    Returns (assignedRange raw i keyEnd) (RangeFrom raw keyEnd) := by
  refine (goesOnWith_returns (by decide) hend).bind ?_
  intro quoted hquoted
  have hopen : Boundary raw (if quoted then keyEnd + 1 else keyEnd) := by
    split_ifs with hq
    · exact hquoted hq
    · exact hend
  have hle : keyEnd ≤ if quoted then keyEnd + 1 else keyEnd := by
    split_ifs <;> omega
  refine (skipSpace_returns hopen).bind ?_
  rintro pos ⟨hpos, hboundary⟩
  refine (goesOnWith_returns (by decide) hboundary).bind ?_
  intro assigned hassigned
  by_cases ha : assigned = true
  · rw [if_pos ha]
    refine (skipSpace_returns (hassigned ha)).bind ?_
    rintro start ⟨hstart, hvalue⟩
    refine (valueRange_returns hvalue).mono ?_
    intro range hrange
    exact hrange.mono (by omega)
  · rw [if_neg ha]
    by_cases htwo : 2 ≤ i
    · rw [if_pos htwo]
      refine (byteSlice_returns (Nat.sub_le i 2) hi).bind ?_
      intro flag _
      refine (goesOnWith_returns (by decide) hend).bind ?_
      intro spaced _
      split_ifs
      · refine (skipSpace_returns hend).bind ?_
        rintro start ⟨hstart, hvalue⟩
        refine (valueRange_returns hvalue).mono ?_
        intro range hrange
        exact hrange.mono hstart
      · exact Returns.ok (rangeFrom_none _ _)
    · rw [if_neg htwo]
      exact Returns.ok (rangeFrom_none _ _)

theorem pathAt_returns {raw : List Char} {start : ℕ} (h : Boundary raw start) :
    Returns (pathAt raw start) fun _ => True :=
  (sliceFrom_returns h).bind fun _ _ => Returns.ok trivial

theorem labelledRange_returns {raw key : List Char} {i keyEnd : ℕ} (hi : i ≤ size raw)
    (hend : Boundary raw keyEnd) :
    Returns (labelledRange raw i keyEnd key) (RangeFrom raw keyEnd) := by
  refine (goesOnWith_returns (by decide) hend).bind ?_
  intro spaced _
  by_cases hbearer : key = "bearer".toList ∧ spaced = true
  · rw [if_pos hbearer]
    refine (skipSpace_returns hend).bind ?_
    rintro start ⟨hstart, hvalue⟩
    refine (valueRange_returns hvalue).mono ?_
    intro range hrange
    exact hrange.mono hstart
  · rw [if_neg hbearer]
    by_cases hkey : sensitiveAssignmentKey key = true
    · rw [if_pos hkey]
      refine (assignedRange_returns hi hend).bind ?_
      intro range hrange
      cases range with
      | none => exact Returns.ok hrange
      | some p =>
        have hstart := (hrange p rfl).2.2.1
        refine (pathAt_returns hstart).bind ?_
        intro path _
        split_ifs
        · exact Returns.ok (rangeFrom_none _ _)
        · exact Returns.ok hrange
    · rw [if_neg hkey]
      exact Returns.ok (rangeFrom_none _ _)

theorem withinWord_returns {raw : List Char} {i : ℕ} (h : i ≤ size raw) :
    Returns (withinWord raw i) fun _ => True := by
  by_cases hpos : 0 < i
  · rw [withinWord, if_pos hpos]
    exact (byteAt_returns (by omega)).bind fun _ _ => Returns.ok trivial
  · rw [withinWord, if_neg hpos]
    exact Returns.ok trivial

/-- Only dots stand between two boundaries. -/
def DotsBetween (raw : List Char) (i j : ℕ) : Prop :=
  ∃ a dots b, raw = a ++ (dots ++ b) ∧ size a = i ∧ size a + size dots = j ∧ ∀ c ∈ dots, c = '.'

theorem dotsBetween_self {raw : List Char} {i : ℕ} (h : Boundary raw i) : DotsBetween raw i i := by
  obtain ⟨a, b, rfl, rfl⟩ := h
  exact ⟨a, [], b, rfl, rfl, rfl, by simp⟩

theorem DotsBetween.boundary {raw : List Char} {i j : ℕ} (h : DotsBetween raw i j) :
    Boundary raw i := by
  obtain ⟨a, dots, b, rfl, rfl, -, -⟩ := h
  exact boundary_size_append a _

/-- A character other than a dot does not stand between dots. -/
theorem DotsBetween.lt {raw a rest : List Char} {c : Char} {i j : ℕ} (h : DotsBetween raw i j)
    (hraw : raw = a ++ c :: rest) (hc : c ≠ '.') (hj : size a < j) : size a < i := by
  obtain ⟨p, dots, b, rfl, rfl, rfl, hdots⟩ := h
  by_contra hle
  obtain ⟨q, m, r, heq, hq, hm⟩ := (boundary_size_append p (dots ++ b)).between
    (hraw ▸ boundary_size_append a (c :: rest)) (Nat.le_of_not_lt hle)
  obtain ⟨rfl, hmid⟩ := append_inj_of_size heq hq.symm
  obtain ⟨rfl, hr⟩ : a = p ++ m ∧ c :: rest = r :=
    append_inj_of_size (by rw [List.append_assoc, ← heq, hraw]) (by rw [size_append]; omega)
  -- Where the dots reach past the character, it is one of them.
  rcases List.append_eq_append_iff.mp hmid with ⟨d, rfl, -⟩ | ⟨d, rfl, hd⟩
  · rw [size_append, size_append] at hj
    omega
  · cases d with
    | nil =>
      rw [List.append_nil, size_append] at hj
      omega
    | cons e d =>
      rw [← hr] at hd
      obtain ⟨rfl, -⟩ := List.cons.inj hd
      exact hc (hdots c (by simp))

/-- The loop over closing dots stays after the offset, where no dot stands. -/
theorem trimDots_returns {raw a rest : List Char} {c : Char} {j n : ℕ}
    (hraw : raw = a ++ c :: rest) (hc : c ≠ '.') (hn : size a < n) (hdots : DotsBetween raw n j) :
    Returns (trimDots raw (size a) n) fun m => size a < m ∧ DotsBetween raw m j := by
  induction n with
  | zero => exact absurd hn (Nat.not_lt_zero _)
  | succ n ih =>
    rw [trimDots, if_pos hn]
    obtain ⟨p, dots, b, hp, hsize, hj, hall⟩ := hdots
    obtain ⟨q, d, rfl⟩ : ∃ q d, p = q ++ [d] := by
      refine ⟨p.dropLast, p.getLast ?_, (List.dropLast_append_getLast _).symm⟩
      rintro rfl
      cases hsize
    have hqd : size q + d.utf8Size = n + 1 := by simpa using hsize
    -- The last byte of a wider character is no dot, so a dot found is a character.
    obtain ⟨x, hx, hdot⟩ := byte_before q d (dots ++ b)
    have hbyte : byteAt raw n = .ok x := by
      rw [byteAt, hp, List.append_assoc, List.singleton_append,
        show n = size q + d.utf8Size - 1 by omega, hx]
    rw [hbyte, ok_bind]
    split_ifs with heq
    · obtain ⟨hd, hlt⟩ := hdot (by rw [heq]; decide)
      obtain rfl : d = '.' := by
        have htoNat : d.toNat = 0x2E := by
          have hmod := congrArg UInt8.toNat (hd.symm.trans heq)
          rw [UInt8.toNat_ofNat', Nat.mod_eq_of_lt (by omega)] at hmod
          exact hmod
        exact Char.toNat_inj.mp htoNat
      have hq : size q = n := by
        have hone : ('.' : Char).utf8Size = 1 := rfl
        omega
      -- The dot that is dropped is not the character at the offset.
      have hne : size a ≠ size q := by
        intro hsame
        have hboth : q ++ '.' :: (dots ++ b) = a ++ c :: rest := by
          rw [← hraw, hp, List.append_assoc, List.singleton_append]
        obtain ⟨-, hcons⟩ := append_inj_of_size hboth hsame.symm
        exact hc (List.cons.inj hcons).1.symm
      refine ih (by omega) ⟨q, '.' :: dots, b, by rw [hp]; simp, hq, ?_, by simpa using hall⟩
      have hone : ('.' : Char).utf8Size = 1 := rfl
      rw [size_cons]
      omega
    · exact Returns.ok ⟨hn, q ++ [d], dots, b, hp, hsize, hj, hall⟩

theorem tokenEnds_returns {raw a rest : List Char} {c : Char} {st : Scan}
    (hraw : raw = a ++ c :: rest) (hi : size a = st.i) (hc : c.isAlpha = true)
    (hdots : DotsBetween raw st.credentialTokenEnd st.scannedTokenEnd) :
    Returns (tokenEnds raw st) fun ends => st.i < ends.2 ∧ DotsBetween raw ends.2 ends.1 := by
  have hdot : c ≠ '.' := by
    rintro rfl
    cases hc
  rw [tokenEnds]
  by_cases hscanned : st.scannedTokenEnd ≤ st.i
  · rw [if_pos hscanned, ← hi, hraw, sliceFrom_append, ok_bind]
    have htoken : isTokenChar c = true := by
      rw [isTokenChar, Char.isAlphanum, hc]
      rfl
    -- The token holds at least the letter at the offset.
    have hspan : 0 < spanSize isTokenChar (c :: rest) := by
      refine size_pos ?_
      rw [List.takeWhile_cons_of_pos htoken]
      exact List.cons_ne_nil _ _
    have hend : Boundary (a ++ c :: rest) (size a + spanSize isTokenChar (c :: rest)) :=
      (boundary_spanSize _).append_left a
    refine (trimDots_returns rfl hdot (by omega) (dotsBetween_self hend)).bind ?_
    intro m hm
    exact Returns.ok hm
  · rw [if_neg hscanned]
    refine Returns.ok ⟨?_, hdots⟩
    rw [← hi]
    exact hdots.lt hraw hdot (by omega)

/-- What a word yields: a range from the word on, and ends of a token with dots between them. -/
def Found (raw : List Char) (i : ℕ) (found : Option (ℕ × ℕ) × ℕ × ℕ) : Prop :=
  RangeFrom raw i found.1 ∧ DotsBetween raw found.2.2 found.2.1

theorem tokenRange_returns {raw a rest : List Char} {c : Char} {st : Scan}
    (hraw : raw = a ++ c :: rest) (hi : size a = st.i) (hc : c.isAlpha = true)
    (hdots : DotsBetween raw st.credentialTokenEnd st.scannedTokenEnd) :
    Returns (tokenRange raw (raw.map Char.toLower) st) (Found raw st.i) := by
  have hboundary : Boundary raw st.i := by
    rw [hraw, ← hi]
    exact boundary_size_append a _
  refine (sliceFrom_returns (hboundary.map toLower_utf8Size)).bind ?_
  intro low _
  split_ifs
  · refine (tokenEnds_returns hraw hi hc hdots).bind ?_
    rintro ends ⟨hlt, hends⟩
    refine (slice_returns hboundary hends.boundary hlt.le).bind ?_
    intro token _
    refine (slice_returns (hboundary.map toLower_utf8Size)
      (hends.boundary.map toLower_utf8Size) hlt.le).bind ?_
    intro low _
    refine Returns.ok ⟨rangeFrom_ite ?_, hends⟩
    intro _
    exact rangeFrom_some le_rfl hlt hboundary hends.boundary
  · exact Returns.ok ⟨rangeFrom_none _ _, hdots⟩

theorem secretAt_returns {raw a rest : List Char} {c : Char} {st : Scan} {keyEnd : ℕ}
    (hraw : raw = a ++ c :: rest) (hi : size a = st.i) (hc : c.isAlpha = true)
    (hdots : DotsBetween raw st.credentialTokenEnd st.scannedTokenEnd)
    (hend : Boundary raw keyEnd) (hle : st.i ≤ keyEnd) :
    Returns (secretAt raw (raw.map Char.toLower) st keyEnd) (Found raw st.i) := by
  have hboundary : Boundary raw st.i := by
    rw [hraw, ← hi]
    exact boundary_size_append a _
  refine (slice_returns (hboundary.map toLower_utf8Size) (hend.map toLower_utf8Size) hle).bind ?_
  intro key _
  refine (labelledRange_returns hboundary.le hend).bind ?_
  intro labelled hlabelled
  cases labelled with
  | some range => exact Returns.ok ⟨hlabelled.mono hle, hdots⟩
  | none => exact tokenRange_returns hraw hi hc hdots

end Sysknife.Brain
