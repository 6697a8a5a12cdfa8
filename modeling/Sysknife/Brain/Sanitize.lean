import Sysknife.Brain.Redaction
import Sysknife.Lib.Marks

/-!
# Sanitising tool output

`sanitize.rs` redacts credentials, strips terminal sequences and invisible characters, normalises,
breaks literal envelope tags, collapses blank lines, redacts again, truncates, and puts what is
left into an envelope. Unicode normalisation is the parameter `nfc`.

* `stripAnsi_eq_ok_iff`: what `strip_ansi` returns. It counts the bytes of an escape sequence, and
  where the sequence ends within a character the next slice stops the program.
* `wholeEscapes_iff`: **the sequences of a text end between characters exactly when `strip_ansi`
  returns.**
-/

namespace Sysknife.Brain

open Slices Marks

/-- `s.is_char_boundary(j)` -/
def isCharBoundary (s : List Char) (j : ℕ) : Bool := (cut j s).isSome

/-- The loop of `next_char_boundary`. -/
def nextBoundaryFrom (s : List Char) : ℕ → ℕ → ℕ
  | 0, j => j
  | fuel + 1, j =>
    if j < size s ∧ isCharBoundary s j = false then nextBoundaryFrom s fuel (j + 1) else j

def nextCharBoundary (s : List Char) (i : ℕ) : ℕ :=
  min (nextBoundaryFrom s (size s) (i + 1)) (size s)

/-- `ESC [`: the bytes up to the final one. -/
def csiLen : List UInt8 → ℕ
  | [] => 0
  | b :: rest => if 0x40 ≤ b ∧ b ≤ 0x7E then 1 else csiLen rest + 1

/-- `ESC ]`: the bytes up to `BEL` or `ESC \`. -/
def oscLen : List UInt8 → ℕ
  | [] => 0
  | b :: rest =>
    if b = 0x07 then 1
    else if b = 0x1B ∧ rest.head? = some 0x5C then 2
    else oscLen rest + 1

/-- How many bytes are skipped, from an escape byte on. -/
def escapeLen : List UInt8 → ℕ
  | [] => 0
  | [_] => 1
  | _ :: b :: rest =>
    if b = 0x5B then csiLen rest + 2
    else if b = 0x5D then oscLen rest + 2
    else if [0x28, 0x29, 0x2A, 0x2B].contains b then min 3 (rest.length + 2)
    else 2

/-- The loop of `strip_ansi`. -/
def stripAnsiFrom (s : List Char) : ℕ → ℕ → List Char → Except Panic (List Char)
  | 0, _, _ => .error .diverges
  | fuel + 1, i, out =>
    if size s ≤ i then .ok out
    else do
      let b ← byteAt s i
      -- The bytes of a sequence are counted, so that `i` may come to stand within a character.
      if b = 0x1B then stripAnsiFrom s fuel (i + escapeLen ((bytes s).drop i)) out
      else
        let stop := nextCharBoundary s i
        let piece ← slice s i stop
        stripAnsiFrom s fuel stop (out ++ piece)

/-- Strip terminal control sequences. -/
def stripAnsi (s : List Char) : Except Panic (List Char) := stripAnsiFrom s (size s + 1) 0 []

/-- The characters `strip_dangerous_unicode` removes. -/
def dangerous (c : Char) : Bool :=
  let code := c.toNat
  code ≤ 0x08 || code == 0x0B || code == 0x0C || (0x0E ≤ code && code ≤ 0x1F) ||
    (0x7F ≤ code && code ≤ 0x9F) ||
    code == 0x00AD || code == 0x034F || code == 0x180E ||
    (0x200B ≤ code && code ≤ 0x200F) || (0x2028 ≤ code && code ≤ 0x202E) ||
    (0x2066 ≤ code && code ≤ 0x2069) || code == 0xFEFF ||
    (0x2060 ≤ code && code ≤ 0x2064) ||
    (0xE0000 ≤ code && code ≤ 0xE007F) ||
    (0xE000 ≤ code && code ≤ 0xF8FF) || (0xF0000 ≤ code && code ≤ 0xFFFFD) ||
    (0x100000 ≤ code && code ≤ 0x10FFFD)

def stripDangerousUnicode (s : List Char) : List Char := s.filter fun c => !dangerous c

def promptEnvelopeNames : List String := ["untrusted_tool_output", "user_preferences"]

def closing (name : String) : List Char := "</".toList ++ name.toList

def blockedClosing (name : String) : List Char := "</BLOCKED_".toList ++ name.toList

def opening (name : String) : List Char := "<".toList ++ name.toList

def blockedOpening (name : String) : List Char := "<BLOCKED_".toList ++ name.toList

/-- Break the literal envelope tags. -/
def neutraliseEnvelopeTags (s : List Char) : List Char :=
  promptEnvelopeNames.foldl
    (fun s name =>
      replaceAll (opening name) (blockedOpening name)
        (replaceAll (closing name) (blockedClosing name) s))
    s

/-- Collapse three or more newlines in a row into two. -/
def collapseBlankRuns (s : List Char) : List Char := collapseFrom '\n' 0 s

def truncationMarker : List Char := "\n[...truncated]".toList

/-- Walk back to a boundary. -/
def walkBack (s : List Char) : ℕ → ℕ
  | 0 => 0
  | n + 1 => if isCharBoundary s (n + 1) then n + 1 else walkBack s n

/-- At most `max` bytes; if anything is removed, a marker stands for it. -/
def truncateWithMarker (s : List Char) (max : ℕ) : Except Panic (List Char) :=
  if size s ≤ max then .ok s
  else do
    let budget := max - size truncationMarker
    let kept ← slice s 0 (walkBack s (min budget (size s)))
    return kept ++ truncationMarker

def isToolNameChar (c : Char) : Bool := c.isAlphanum || c == '_' || c == '-'

def sanitiseToolName (name : List Char) : List Char :=
  if name.all isToolNameChar && !name.isEmpty then name
  else
    let cleaned := name.map fun c => if isToolNameChar c then c else '_'
    if cleaned.isEmpty then "unknown".toList else cleaned

section Nfc

variable (nfc : List Char → List Char)

def normaliseUnboundedText (raw : List Char) : Except Panic (List Char) := do
  let s ← stripAnsi raw
  return collapseBlankRuns (neutraliseEnvelopeTags (nfc (stripDangerousUnicode s)))

/-- Saved preferences have a limit of their own and are not truncated. -/
def normalisePreferences (raw : List Char) : Except Panic (List Char) :=
  normaliseUnboundedText nfc raw

/-- `MAX_OUTPUT_BYTES` -/
def maxOutputBytes : ℕ := 8 * 1024

def normaliseFreeTextCapped (raw : List Char) (max : ℕ) : Except Panic (List Char) := do
  let s ← normaliseUnboundedText nfc raw
  truncateWithMarker s max

def normaliseFreeText (raw : List Char) : Except Panic (List Char) :=
  normaliseFreeTextCapped nfc raw maxOutputBytes

/-- The text in its envelope. -/
def envelope (tool body : List Char) : List Char :=
  "<untrusted_tool_output source=\"".toList ++ tool ++ "\">\n".toList ++ body ++
    "\n</untrusted_tool_output>".toList

/-- The body of the envelope. -/
def sanitizedBody (raw : List Char) (max : ℕ) : Except Panic (List Char) := do
  let redacted ← redactToolSecrets raw
  let normalised ← normaliseUnboundedText nfc redacted
  let redacted ← redactToolSecrets normalised
  truncateWithMarker redacted max

/-- Sanitise a tool's output, at most `max` bytes of it. -/
def sanitizeToolOutputCapped (tool raw : List Char) (max : ℕ) : Except Panic (List Char) := do
  let body ← sanitizedBody nfc raw max
  return envelope (sanitiseToolName tool) body

end Nfc

/-! ### Where escape sequences end -/

def escape : Char := '\x1B'

/-- What follows `ESC [` and the sequence it opens. -/
def afterCsi : List Char → List Char
  | [] => []
  | c :: t => if 0x40 ≤ c.toNat ∧ c.toNat ≤ 0x7E then t else afterCsi t

/-- What follows `ESC ]` and the sequence it opens. -/
def afterOsc : List Char → List Char
  | [] => []
  | c :: t =>
    if c = '\x07' then t
    else if c = escape ∧ t.head? = some '\\' then t.tail
    else afterOsc t

/-- What follows a character, if it is one byte long. -/
def afterByte : List Char → Option (List Char)
  | [] => some []
  | c :: t => if Wide c then none else some t

/-- What follows an escape character and its sequence, if the sequence ends between characters. -/
def afterEscape : List Char → Option (List Char)
  | [] => some []
  | c :: t =>
    if c = '[' then some (afterCsi t)
    else if c = ']' then some (afterOsc t)
    else if ['(', ')', '*', '+'].contains c then afterByte t
    else afterByte (c :: t)

/-- `r` is what is left of a text without its escape sequences, all of which end between
characters. -/
inductive Strips : List Char → List Char → Prop
  | nil : Strips [] []
  | char {c : Char} {t r : List Char} (hc : c ≠ escape) (h : Strips t r) : Strips (c :: t) (c :: r)
  | escape {t t' r : List Char} (ht : afterEscape t = some t') (h : Strips t' r) :
    Strips (escape :: t) r

theorem afterCsi_suffix (t : List Char) : afterCsi t <:+ t := by
  induction t with
  | nil => exact List.suffix_rfl
  | cons c t ih =>
    rw [afterCsi]
    split_ifs
    · exact List.suffix_cons c t
    · exact ih.trans (List.suffix_cons c t)

theorem afterOsc_suffix (t : List Char) : afterOsc t <:+ t := by
  induction t with
  | nil => exact List.suffix_rfl
  | cons c t ih =>
    rw [afterOsc]
    split_ifs
    · exact List.suffix_cons c t
    · exact (List.tail_suffix t).trans (List.suffix_cons c t)
    · exact ih.trans (List.suffix_cons c t)

theorem afterByte_suffix {t t' : List Char} (h : afterByte t = some t') : t' <:+ t := by
  cases t with
  | nil =>
    obtain rfl := Option.some.inj h
    exact List.suffix_rfl
  | cons c t =>
    rw [afterByte] at h
    split_ifs at h
    obtain rfl := Option.some.inj h
    exact List.suffix_cons c t

/-- A sequence takes away a beginning of what follows its escape character. -/
theorem afterEscape_suffix {t t' : List Char} (h : afterEscape t = some t') : t' <:+ t := by
  cases t with
  | nil =>
    obtain rfl := Option.some.inj h
    exact List.suffix_rfl
  | cons c t =>
    have hcons := List.suffix_cons c t
    rw [afterEscape] at h
    split_ifs at h
    · obtain rfl := Option.some.inj h
      exact (afterCsi_suffix t).trans hcons
    · obtain rfl := Option.some.inj h
      exact (afterOsc_suffix t).trans hcons
    · exact (afterByte_suffix h).trans hcons
    · exact afterByte_suffix h

/-- Stripping escape sequences only leaves characters out. -/
theorem Strips.sublist {s r : List Char} (h : Strips s r) : r.Sublist s := by
  induction h with
  | nil => exact .slnil
  | char _ _ ih => exact ih.cons_cons _
  | escape ht _ ih => exact (ih.trans (afterEscape_suffix ht).sublist).cons _

theorem csiLen_append {bs rest : List UInt8} (h : ∀ b ∈ bs, 0x80 ≤ b) :
    csiLen (bs ++ rest) = csiLen rest + bs.length := by
  induction bs with
  | nil => rfl
  | cons b bs ih =>
    have hb : ¬(0x40 ≤ b ∧ b ≤ 0x7E) := by
      rintro ⟨-, hle⟩
      have hhigh := UInt8.le_trans (h b (by simp)) hle
      exact absurd hhigh (by decide)
    rw [List.cons_append, csiLen, if_neg hb, ih fun b hb => h b (List.mem_cons_of_mem _ hb),
      List.length_cons]
    omega

theorem oscLen_append {bs rest : List UInt8} (h : ∀ b ∈ bs, 0x80 ≤ b) :
    oscLen (bs ++ rest) = oscLen rest + bs.length := by
  induction bs with
  | nil => rfl
  | cons b bs ih =>
    have hhigh := h b (by simp)
    have hbell : b ≠ 0x07 := by
      rintro rfl
      exact absurd hhigh (by decide)
    have hescape : b ≠ 0x1B := by
      rintro rfl
      exact absurd hhigh (by decide)
    rw [List.cons_append, oscLen, if_neg hbell, if_neg fun hb => hescape hb.1,
      ih fun b hb => h b (List.mem_cons_of_mem _ hb), List.length_cons]
    omega

/-- The final byte of a sequence is a character. -/
theorem csiLen_spec (t : List Char) :
    ∃ p, t = p ++ afterCsi t ∧ csiLen (bytes t) = size p := by
  induction t with
  | nil => exact ⟨[], rfl, rfl⟩
  | cons c t ih =>
    obtain ⟨p, hp, hsize⟩ := ih
    -- No byte of a wide character is the final byte of a sequence.
    by_cases hwide : Wide c
    · have hc : ¬(0x40 ≤ c.toNat ∧ c.toNat ≤ 0x7E) := by
        rw [Wide] at hwide
        omega
      refine ⟨c :: p, ?_, ?_⟩
      · rw [afterCsi, if_neg hc, List.cons_append, ← hp]
      · rw [bytes_cons, csiLen_append (high_of_wide hwide), String.length_utf8EncodeChar, hsize,
          size_cons]
        omega
    · have hlt : c.toNat < 128 := Nat.lt_of_not_le hwide
      have hiff : (0x40 ≤ UInt8.ofNat c.toNat ∧ UInt8.ofNat c.toNat ≤ 0x7E) ↔
          0x40 ≤ c.toNat ∧ c.toNat ≤ 0x7E := by
        have hlow : (0x40 : UInt8).toNat = 0x40 := rfl
        have hhigh : (0x7E : UInt8).toNat = 0x7E := rfl
        rw [UInt8.le_iff_toNat_le, UInt8.le_iff_toNat_le, UInt8.toNat_ofNat',
          Nat.mod_eq_of_lt (by omega), hlow, hhigh]
      rw [bytes_cons, encode_of_not_wide hwide, List.singleton_append, csiLen, afterCsi]
      simp only [hiff]
      split_ifs with hc
      · exact ⟨[c], rfl, by rw [size_cons, utf8Size_of_not_wide hwide, size_nil]⟩
      · refine ⟨c :: p, by rw [List.cons_append, ← hp], ?_⟩
        rw [size_cons, utf8Size_of_not_wide hwide, hsize]
        omega

theorem oscLen_spec (t : List Char) :
    ∃ p, t = p ++ afterOsc t ∧ oscLen (bytes t) = size p := by
  induction t with
  | nil => exact ⟨[], rfl, rfl⟩
  | cons c t ih =>
    obtain ⟨p, hp, hsize⟩ := ih
    by_cases hwide : Wide c
    · have hbell : c ≠ '\x07' := by
        rintro rfl
        exact absurd hwide (by decide)
      have hescape : c ≠ escape := by
        rintro rfl
        exact absurd hwide (by decide)
      refine ⟨c :: p, ?_, ?_⟩
      · rw [afterOsc, if_neg hbell, if_neg fun h => hescape h.1, List.cons_append, ← hp]
      · rw [bytes_cons, oscLen_append (high_of_wide hwide), String.length_utf8EncodeChar, hsize,
          size_cons]
        omega
    · have hbell : UInt8.ofNat c.toNat = 0x07 ↔ c = '\x07' :=
        byte_inj (d := '\x07') hwide (by decide)
      have hescape : UInt8.ofNat c.toNat = 0x1B ↔ c = escape :=
        byte_inj (d := escape) hwide (by decide)
      have hslash : (bytes t).head? = some 0x5C ↔ t.head? = some '\\' := by
        cases t with
        | nil => exact iff_of_false nofun nofun
        | cons d t =>
          rw [List.head?_cons, Option.some.injEq]
          exact head_bytes (d := '\\') (by decide) t
      rw [bytes_cons, encode_of_not_wide hwide, List.singleton_append, oscLen, afterOsc]
      simp only [hbell, hescape, hslash]
      split_ifs with h7 hst
      · exact ⟨[c], rfl, by rw [size_cons, utf8Size_of_not_wide hwide, size_nil]⟩
      · cases t with
        | nil => cases hst.2
        | cons d t =>
          obtain rfl : d = '\\' := Option.some.inj hst.2
          refine ⟨[c, '\\'], rfl, ?_⟩
          rw [size_cons, utf8Size_of_not_wide hwide]
          rfl
      · refine ⟨c :: p, by rw [List.cons_append, ← hp], ?_⟩
        rw [size_cons, utf8Size_of_not_wide hwide, hsize]
        omega

/-- An escape sequence reaches to the end of a character, or one byte into a wide one. -/
theorem escapeLen_spec (t : List Char) :
    (∃ p t', afterEscape t = some t' ∧ t = p ++ t' ∧
      escapeLen (bytes (escape :: t)) = size p + 1) ∨
    (afterEscape t = none ∧ ∃ p c t', Wide c ∧ t = p ++ c :: t' ∧
      escapeLen (bytes (escape :: t)) = size p + 2) := by
  have hescape (t : List Char) : bytes (escape :: t) = 0x1B :: bytes t := rfl
  rw [hescape]
  cases t with
  | nil => exact Or.inl ⟨[], [], rfl, rfl, rfl⟩
  | cons c t =>
    by_cases hwide : Wide c
    · refine Or.inr ⟨?_, [], c, t, hwide, rfl, ?_⟩
      · have hne {d : Char} (hd : ¬Wide d) : c ≠ d := by
          rintro rfl
          exact hd hwide
        have hset : ¬['(', ')', '*', '+'].contains c = true := by
          simp only [List.contains_iff_mem, List.mem_cons, List.not_mem_nil, or_false, not_or]
          exact ⟨hne (by decide), hne (by decide), hne (by decide), hne (by decide)⟩
        rw [afterEscape, if_neg (hne (by decide)), if_neg (hne (by decide)), if_neg hset,
          afterByte, if_pos hwide]
      -- Of a wide character after the escape only its first byte is skipped.
      · obtain ⟨lead, bs, heq, hlead, -⟩ := encode_of_wide hwide
        have hne {b : UInt8} (hb : b < 0xC0) : lead ≠ b := by
          rintro rfl
          exact absurd hlead (UInt8.not_le.mpr hb)
        have hset : ¬[0x28, 0x29, 0x2A, 0x2B].contains lead = true := by
          simp only [List.contains_iff_mem, List.mem_cons, List.not_mem_nil, or_false, not_or]
          exact ⟨hne (by decide), hne (by decide), hne (by decide), hne (by decide)⟩
        rw [bytes_cons, heq, List.cons_append, escapeLen, if_neg (hne (by decide)),
          if_neg (hne (by decide)), if_neg hset]
        rfl
    · have hone := utf8Size_of_not_wide hwide
      have hbyte {d : Char} (hd : ¬Wide d) : UInt8.ofNat c.toNat = UInt8.ofNat d.toNat ↔ c = d :=
        byte_inj hwide hd
      have hbracket : UInt8.ofNat c.toNat = 0x5B ↔ c = '[' := hbyte (d := '[') (by decide)
      have hclose : UInt8.ofNat c.toNat = 0x5D ↔ c = ']' := hbyte (d := ']') (by decide)
      have hset : [0x28, 0x29, 0x2A, 0x2B].contains (UInt8.ofNat c.toNat) =
          ['(', ')', '*', '+'].contains c := by
        rw [Bool.eq_iff_iff, List.contains_iff_mem, List.contains_iff_mem]
        simp only [List.mem_cons, List.not_mem_nil, or_false]
        exact or_congr (hbyte (d := '(') (by decide)) (or_congr (hbyte (d := ')') (by decide))
          (or_congr (hbyte (d := '*') (by decide)) (hbyte (d := '+') (by decide))))
      rw [bytes_cons, encode_of_not_wide hwide, List.singleton_append, escapeLen, afterEscape]
      simp only [hbracket, hclose, hset]
      -- The four kinds of sequence, told apart by the byte after the escape.
      split_ifs with hcsi hosc hcharset
      · obtain ⟨p, hp, hsize⟩ := csiLen_spec t
        refine Or.inl ⟨c :: p, afterCsi t, rfl, by rw [List.cons_append, ← hp], ?_⟩
        rw [size_cons, hone, hsize]
        omega
      · obtain ⟨p, hp, hsize⟩ := oscLen_spec t
        refine Or.inl ⟨c :: p, afterOsc t, rfl, by rw [List.cons_append, ← hp], ?_⟩
        rw [size_cons, hone, hsize]
        omega
      · cases t with
        | nil => exact Or.inl ⟨[c], [], rfl, rfl, by rw [size_cons, hone]; rfl⟩
        | cons d t =>
          have hpos := Char.utf8Size_pos d
          have hthree : min 3 ((bytes (d :: t)).length + 2) = 3 := by
            rw [length_bytes, size_cons]
            omega
          rw [hthree, afterByte]
          split_ifs with hd
          · exact Or.inr ⟨rfl, [c], d, t, hd, rfl, by rw [size_cons, hone]; rfl⟩
          · refine Or.inl ⟨[c, d], t, rfl, rfl, ?_⟩
            rw [size_cons, size_cons, hone, utf8Size_of_not_wide hd]
            rfl
      · rw [afterByte, if_neg hwide]
        exact Or.inl ⟨[c], t, rfl, rfl, by rw [size_cons, hone]; rfl⟩

theorem isCharBoundary_size_append (a b : List Char) : isCharBoundary (a ++ b) (size a) = true := by
  rw [isCharBoundary, cut_size_append]
  rfl

theorem isCharBoundary_inside (a : List Char) (c : Char) (b : List Char) {k : ℕ} (hk : 0 < k)
    (hc : k < c.utf8Size) : isCharBoundary (a ++ c :: b) (size a + k) = false := by
  rw [isCharBoundary, cut_inside a c b hk hc]
  rfl

/-- The loop reaches the end of the character. -/
theorem nextBoundaryFrom_inside (a : List Char) (c : Char) (b : List Char) {fuel k : ℕ}
    (hk : 0 < k) (hc : k ≤ c.utf8Size) (hfuel : c.utf8Size ≤ k + fuel) :
    nextBoundaryFrom (a ++ c :: b) fuel (size a + k) = size a + c.utf8Size := by
  induction fuel generalizing k with
  | zero =>
    obtain rfl : k = c.utf8Size := by omega
    rfl
  | succ fuel ih =>
    rw [nextBoundaryFrom]
    rcases Nat.lt_or_ge k c.utf8Size with hlt | hge
    · have hsize : size a + k < size (a ++ c :: b) := by
        rw [size_append, size_cons]
        omega
      rw [if_pos ⟨hsize, isCharBoundary_inside a c b hk hlt⟩]
      exact ih (k := k + 1) (by omega) hlt (by omega)
    · obtain rfl : k = c.utf8Size := by omega
      have hend : isCharBoundary (a ++ c :: b) (size a + c.utf8Size) = true := by
        have hsplit := isCharBoundary_size_append (a ++ [c]) b
        rwa [List.append_assoc, List.singleton_append, size_append, size_cons, size_nil,
          Nat.add_zero] at hsplit
      rw [if_neg]
      rw [hend]
      rintro ⟨-, h⟩
      cases h

theorem nextCharBoundary_eq (a : List Char) (c : Char) (b : List Char) :
    nextCharBoundary (a ++ c :: b) (size a) = size a + c.utf8Size := by
  have hpos := Char.utf8Size_pos c
  have hsize : size (a ++ c :: b) = size a + (c.utf8Size + size b) := by
    rw [size_append, size_cons]
  rw [nextCharBoundary, nextBoundaryFrom_inside a c b Nat.one_pos hpos (by omega)]
  omega

/-- Within a character the next slice stops the program. -/
theorem stripAnsiFrom_inside (a : List Char) {c : Char} (b : List Char) (hc : Wide c)
    (fuel : ℕ) (out r : List Char) :
    stripAnsiFrom (a ++ c :: b) fuel (size a + 1) out ≠ .ok r := by
  have hwide := one_lt_utf8Size_of_wide hc
  have hsize : ¬size (a ++ c :: b) ≤ size a + 1 := by
    rw [size_append, size_cons]
    omega
  cases fuel with
  | zero =>
    intro h
    cases h
  | succ fuel =>
    obtain ⟨x, rest, hdrop, hcont⟩ := drop_bytes_inside a c b Nat.one_pos hwide
    have hbyte : byteAt (a ++ c :: b) (size a + 1) = .ok x := by
      rw [byteAt, ← List.head?_drop, hdrop]
      rfl
    have hx : x ≠ 0x1B := by
      rintro rfl
      exact absurd hcont (by decide)
    have hslice (j : ℕ) : slice (a ++ c :: b) (size a + 1) j = .error .badSlice := by
      rw [slice, cut_inside a c b Nat.one_pos hwide]
      split_ifs <;> rfl
    rw [stripAnsiFrom, if_neg hsize, hbyte, ok_bind, if_neg hx]
    simp only [hslice]
    intro h
    cases h

/-- From a boundary on, the loop returns what is left without the escape sequences. -/
theorem stripAnsiFrom_eq_ok_iff {a t out r : List Char} {fuel : ℕ} (hfuel : size t < fuel) :
    stripAnsiFrom (a ++ t) fuel (size a) out = .ok r ↔ ∃ r', r = out ++ r' ∧ Strips t r' := by
  induction fuel generalizing a t out with
  | zero => exact absurd hfuel (Nat.not_lt_zero _)
  | succ fuel ih =>
    cases t with
    | nil =>
      rw [stripAnsiFrom, if_pos (by rw [List.append_nil]), Except.ok.injEq]
      constructor
      · rintro rfl
        exact ⟨[], by rw [List.append_nil], .nil⟩
      · rintro ⟨r', rfl, h⟩
        cases h
        rw [List.append_nil]
    | cons c t =>
      have hpos := Char.utf8Size_pos c
      have hend : ¬size (a ++ c :: t) ≤ size a := by
        rw [size_append, size_cons]
        omega
      have hdrop := drop_bytes a (c :: t)
      have hbyte : ∃ x, byteAt (a ++ c :: t) (size a) = .ok x ∧ (x = 0x1B ↔ c = escape) := by
        have hhead := head_bytes (c := c) (d := escape) (by decide) t
        rw [byteAt, ← List.head?_drop, hdrop]
        cases hx : (bytes (c :: t)).head? with
        | none =>
          rw [List.head?_eq_none_iff, ← List.length_eq_zero_iff, length_bytes, size_cons] at hx
          omega
        | some x =>
          rw [hx, Option.some.injEq] at hhead
          exact ⟨x, rfl, hhead⟩
      obtain ⟨x, hbyte, hx⟩ := hbyte
      rw [stripAnsiFrom, if_neg hend, hbyte, ok_bind, hdrop]
      by_cases hc : c = escape
      · subst hc
        rw [if_pos (hx.mpr rfl)]
        rcases escapeLen_spec t with ⟨p, t', hafter, rfl, hlen⟩ | ⟨hafter, p, d, t', hd, rfl, hlen⟩
        · have hstep := @ih (a ++ escape :: p) t' out
            (by simp only [size_cons, size_append] at hfuel hpos ⊢; omega)
          have hone : escape.utf8Size = 1 := rfl
          have hsize : size (a ++ escape :: p) = size a + (size p + 1) := by
            rw [size_append, size_cons, hone, Nat.add_comm 1]
          rw [List.append_assoc, List.cons_append, hsize] at hstep
          rw [hlen, hstep]
          constructor
          · rintro ⟨r', rfl, h⟩
            exact ⟨r', rfl, .escape hafter h⟩
          · rintro ⟨r', rfl, h⟩
            refine ⟨r', rfl, ?_⟩
            cases h with
            | char hne _ => exact absurd rfl hne
            | escape hafter' h =>
              obtain rfl := Option.some.inj (hafter.symm.trans hafter')
              exact h
        -- The sequence ends within a character: the next slice stops the program.
        · have hone : escape.utf8Size = 1 := rfl
          have hsize : size (a ++ escape :: p) + 1 = size a + (size p + 2) := by
            rw [size_append, size_cons, hone]
            omega
          refine iff_of_false ?_ ?_
          · have hstuck := stripAnsiFrom_inside (a ++ escape :: p) t' hd fuel out r
            rwa [List.append_assoc, List.cons_append, hsize, ← hlen] at hstuck
          · rintro ⟨r', rfl, h⟩
            cases h with
            | char hne _ => exact absurd rfl hne
            | escape hafter' _ => cases hafter.symm.trans hafter'
      · have hpiece : slice (a ++ c :: t) (size a) (size a + c.utf8Size) = .ok [c] :=
          slice_append a [c] t
        have hstep := @ih (a ++ [c]) t (out ++ [c])
          (by rw [size_cons] at hfuel; omega)
        rw [List.append_assoc, List.singleton_append, size_append, size_cons, size_nil,
          Nat.add_zero] at hstep
        rw [if_neg (hx.not.mpr hc)]
        simp only [nextCharBoundary_eq, hpiece, ok_bind, hstep]
        constructor
        · rintro ⟨r', rfl, h⟩
          exact ⟨c :: r', by simp, .char hc h⟩
        · rintro ⟨r', rfl, h⟩
          cases h with
          | char _ h => exact ⟨_, by simp, h⟩
          | escape _ _ => exact absurd rfl hc

/-- What `strip_ansi` returns, if it returns. -/
theorem stripAnsi_eq_ok_iff {s r : List Char} : stripAnsi s = .ok r ↔ Strips s r := by
  have hrun := @stripAnsiFrom_eq_ok_iff [] s [] r (size s + 1) (Nat.lt_succ_self _)
  rw [stripAnsi]
  refine hrun.trans ⟨?_, ?_⟩
  · rintro ⟨r', rfl, h⟩
    exact h
  · intro h
    exact ⟨r, rfl, h⟩

/-- Every escape sequence of the text ends between two characters or with the text. -/
inductive WholeEscapes : List Char → Prop
  | nil : WholeEscapes []
  | char {c : Char} {t : List Char} (hc : c ≠ escape) (h : WholeEscapes t) : WholeEscapes (c :: t)
  | escape {t t' : List Char} (ht : afterEscape t = some t') (h : WholeEscapes t') :
    WholeEscapes (escape :: t)

theorem exists_strips_iff {s : List Char} : (∃ r, Strips s r) ↔ WholeEscapes s := by
  constructor
  · rintro ⟨r, h⟩
    induction h with
    | nil => exact .nil
    | char hc _ ih => exact .char hc ih
    | escape ht _ ih => exact .escape ht ih
  · intro h
    induction h with
    | nil => exact ⟨[], .nil⟩
    | @char c t hc _ ih =>
      obtain ⟨r, hr⟩ := ih
      exact ⟨c :: r, .char hc hr⟩
    | escape ht _ ih =>
      obtain ⟨r, hr⟩ := ih
      exact ⟨r, .escape ht hr⟩

/-! ### The whole pipeline -/

theorem isCharBoundary_iff {s : List Char} {j : ℕ} : isCharBoundary s j = true ↔ Boundary s j := by
  rw [isCharBoundary, Option.isSome_iff_exists, Boundary]
  simp only [Prod.exists, cut_eq_some]

theorem walkBack_boundary (s : List Char) (n : ℕ) : Boundary s (walkBack s n) := by
  induction n with
  | zero => exact boundary_zero s
  | succ n ih =>
    rw [walkBack]
    split_ifs with h
    · exact isCharBoundary_iff.mp h
    · exact ih

theorem walkBack_le (s : List Char) (n : ℕ) : walkBack s n ≤ n := by
  induction n with
  | zero => exact le_rfl
  | succ n ih =>
    rw [walkBack]
    split_ifs
    · exact le_rfl
    · omega

/-- Truncation returns the text, or a beginning of it and the marker. -/
theorem truncateWithMarker_returns (s : List Char) (max : ℕ) :
    Returns (truncateWithMarker s max) fun r => (r = s ∧ size s ≤ max) ∨
      ∃ kept rest, s = kept ++ rest ∧ r = kept ++ truncationMarker ∧
        size kept ≤ max - size truncationMarker := by
  rw [truncateWithMarker]
  split_ifs with hle
  · exact Returns.ok (Or.inl ⟨rfl, hle⟩)
  · have hcut := walkBack_le s (min (max - size truncationMarker) (size s))
    refine (slice_returns (boundary_zero s) (walkBack_boundary s _) (Nat.zero_le _)).bind ?_
    rintro kept ⟨a, b, rfl, ha, hsize⟩
    obtain rfl := size_eq_zero ha
    refine Returns.ok (Or.inr ⟨kept, b, rfl, rfl, ?_⟩)
    rw [size_nil, Nat.zero_add] at hsize
    omega

/-- Normalising a text returns exactly if `strip_ansi` does. -/
theorem exists_normalised_iff (nfc : List Char → List Char) (raw : List Char) (max : ℕ) :
    (∃ text, normaliseFreeTextCapped nfc raw max = .ok text) ↔ WholeEscapes raw := by
  rw [← exists_strips_iff]
  constructor
  · rintro ⟨text, h⟩
    obtain ⟨normalised, hnormalised, -⟩ := exists_of_bind_eq_ok h
    obtain ⟨stripped, hstripped, -⟩ := exists_of_bind_eq_ok hnormalised
    exact ⟨stripped, stripAnsi_eq_ok_iff.mp hstripped⟩
  · rintro ⟨stripped, h⟩
    obtain ⟨text, htext, -⟩ := truncateWithMarker_returns (collapseBlankRuns
      (neutraliseEnvelopeTags (nfc (stripDangerousUnicode stripped)))) max
    refine ⟨text, ?_⟩
    rw [normaliseFreeTextCapped, normaliseUnboundedText, stripAnsi_eq_ok_iff.mpr h]
    exact htext

/-- The first redaction returns, and the rest of the pipeline does if `strip_ansi` returns. -/
theorem exists_sanitized_iff (nfc : List Char → List Char) (tool raw : List Char) (max : ℕ) :
    ∃ redacted, redactToolSecrets raw = .ok redacted ∧
      ((∃ text, sanitizeToolOutputCapped nfc tool raw max = .ok text) ↔ WholeEscapes redacted) := by
  obtain ⟨_, redacted, -, -, hok⟩ := redactToolSecrets_spec raw
  refine ⟨redacted, hok, ?_⟩
  rw [← exists_strips_iff]
  constructor
  · rintro ⟨text, h⟩
    obtain ⟨body, hbody, -⟩ := exists_of_bind_eq_ok h
    rw [sanitizedBody, hok, ok_bind] at hbody
    obtain ⟨normalised, hnormalised, -⟩ := exists_of_bind_eq_ok hbody
    obtain ⟨stripped, hstripped, -⟩ := exists_of_bind_eq_ok hnormalised
    exact ⟨stripped, stripAnsi_eq_ok_iff.mp hstripped⟩
  · rintro ⟨stripped, h⟩
    have hstripped := stripAnsi_eq_ok_iff.mpr h
    have hnormalised : normaliseUnboundedText nfc redacted = .ok (collapseBlankRuns
        (neutraliseEnvelopeTags (nfc (stripDangerousUnicode stripped)))) := by
      rw [normaliseUnboundedText, hstripped]
      rfl
    -- What comes after `strip_ansi` always returns.
    obtain ⟨_, again, -, -, hagain⟩ := redactToolSecrets_spec (collapseBlankRuns
      (neutraliseEnvelopeTags (nfc (stripDangerousUnicode stripped))))
    obtain ⟨body, hbody, -⟩ := truncateWithMarker_returns again max
    refine ⟨envelope (sanitiseToolName tool) body, ?_⟩
    rw [sanitizeToolOutputCapped, sanitizedBody, hok, ok_bind, hnormalised, ok_bind, hagain,
      ok_bind, hbody]
    rfl

/-- **Sanitising stops the program exactly where an escape sequence ends within a character.**
Redaction always returns; `strip_ansi` returns on the texts whose escape sequences end between
characters, and the pipeline on those whose redaction is such a text. -/
theorem sanitize_returns_iff (nfc : List Char → List Char) (s tool raw : List Char) (max : ℕ) :
    ((∃ r, stripAnsi s = .ok r) ↔ WholeEscapes s) ∧
      ∃ redacted, redactToolSecrets raw = .ok redacted ∧
        ((∃ text, sanitizeToolOutputCapped nfc tool raw max = .ok text) ↔
          WholeEscapes redacted) := by
  refine ⟨?_, exists_sanitized_iff nfc tool raw max⟩
  simp only [stripAnsi_eq_ok_iff]
  exact exists_strips_iff

/-- An escape before a character of two bytes stops the program. -/
theorem sanitize_stops_within_character :
    stripAnsi [escape, 'é'] = .error .badSlice ∧
      sanitizeToolOutputCapped id [] [escape, 'é'] 8192 = .error .badSlice ∧
      stripAnsi [escape, '(', 'é'] = .error .badSlice ∧
      ¬∀ (nfc : List Char → List Char) (s tool raw : List Char) (max : ℕ),
        (∃ r, stripAnsi s = .ok r) ∧ (∃ r, redactToolSecrets raw = .ok r) ∧
          ∃ text, sanitizeToolOutputCapped nfc tool raw max = .ok text := by
  have hstop : stripAnsi [escape, 'é'] = .error .badSlice := by decide
  refine ⟨hstop, by decide, by decide, ?_⟩
  intro h
  obtain ⟨⟨r, hr⟩, -⟩ := h id [escape, 'é'] [] [] 0
  rw [hstop] at hr
  cases hr

end Sysknife.Brain
