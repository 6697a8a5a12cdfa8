import Mathlib.Data.List.Basic

/-!
# Byte strings and hexadecimal text

UTF-8 bytes of strings (`utf8`), lower-case hexadecimal rendering (`Hex.encode`) and the
case-insensitive reading (`Hex.decode`). The two facts the signing code rests on are
`Hex.decode_encode` and `Hex.isDigit_of_decode`: whatever is accepted as hexadecimal consists
of hexadecimal digits.
-/

/-- A byte string. -/
abbrev Bytes := List UInt8

instance : LawfulBEq Bytes := inferInstance

/-- The UTF-8 bytes of a string. -/
def utf8 (s : String) : Bytes := s.toByteArray.data.toList

theorem utf8_injective {s t : String} (h : utf8 s = utf8 t) : s = t := by
  have hdata : s.toByteArray.data = t.toByteArray.data := Array.toList_inj.mp h
  exact String.toByteArray_inj.mp (ByteArray.ext hdata)

@[simp] theorem utf8_append (s t : String) : utf8 (s ++ t) = utf8 s ++ utf8 t := by
  simp [utf8, String.toByteArray_append]

@[simp] theorem utf8_empty : utf8 "" = [] := rfl

@[simp] theorem utf8_eq_nil {s : String} : utf8 s = [] ↔ s = "" :=
  ⟨fun h => utf8_injective (h.trans utf8_empty.symm), fun h => h ▸ rfl⟩

/-- ASCII text has one byte a character. -/
theorem utf8_ofList {cs : List Char} (h : ∀ c ∈ cs, c.utf8Size = 1) :
    utf8 (String.ofList cs) = cs.map fun c => c.val.toUInt8 := by
  induction cs with
  | nil => rfl
  | cons c cs ih =>
    have hc := String.utf8EncodeChar_eq_singleton (h c List.mem_cons_self)
    have ih := ih fun d hd => h d (List.mem_cons_of_mem c hd)
    simp only [utf8, String.toByteArray_ofList] at ih ⊢
    rw [List.utf8Encode_cons, List.utf8Encode_singleton, hc]
    simp [ih]

namespace Hex

/-- The lower-case digit of a value below sixteen. -/
def digit (n : ℕ) : Char := if n < 10 then Char.ofNat (48 + n) else Char.ofNat (87 + n)

/-- The value of a digit, in either letter case. -/
def digitValue? (b : UInt8) : Option ℕ :=
  if 48 ≤ b ∧ b ≤ 57 then some (b.toNat - 48)
  else if 97 ≤ b ∧ b ≤ 102 then some (b.toNat - 87)
  else if 65 ≤ b ∧ b ≤ 70 then some (b.toNat - 55)
  else none

/-- Lower-case hexadecimal text of a byte string. -/
def encode (bytes : Bytes) : String :=
  String.ofList (bytes.flatMap fun b => [digit (b.toNat / 16), digit (b.toNat % 16)])

/-- The bytes of a sequence of digit pairs. -/
def decodeBytes : Bytes → Option Bytes
  | [] => some []
  | [_] => none
  | hi :: lo :: rest => do
    let h ← digitValue? hi
    let l ← digitValue? lo
    let bytes ← decodeBytes rest
    pure (UInt8.ofNat (16 * h + l) :: bytes)

/-- Read hexadecimal text; odd lengths and foreign characters are refused. -/
def decode (s : String) : Option Bytes := decodeBytes (utf8 s)

private theorem digit_spec : ∀ n < 16,
    (digit n).utf8Size = 1 ∧ digitValue? (digit n).val.toUInt8 = some n := by
  decide

private theorem utf8_encode (bytes : Bytes) :
    utf8 (encode bytes) = bytes.flatMap fun b =>
      [(digit (b.toNat / 16)).val.toUInt8, (digit (b.toNat % 16)).val.toUInt8] := by
  have hsize : ∀ c ∈ bytes.flatMap fun b => [digit (b.toNat / 16), digit (b.toNat % 16)],
      c.utf8Size = 1 := by
    intro c hc
    obtain ⟨b, -, hb⟩ := List.mem_flatMap.mp hc
    have hlt := b.toNat_lt
    rcases List.mem_pair.mp hb with rfl | rfl
    · exact (digit_spec _ (by omega)).1
    · exact (digit_spec _ (by omega)).1
  rw [encode, utf8_ofList hsize]
  simp [List.map_flatMap]

/-- Reading back what was rendered. -/
theorem decode_encode (bytes : Bytes) : decode (encode bytes) = some bytes := by
  rw [decode, utf8_encode]
  induction bytes with
  | nil => rfl
  | cons b bytes ih =>
    have hlt := b.toNat_lt
    have hhi := (digit_spec (b.toNat / 16) (by omega)).2
    have hlo := (digit_spec (b.toNat % 16) (by omega)).2
    have hb : 16 * (b.toNat / 16) + b.toNat % 16 = b.toNat := by omega
    simp only [List.flatMap_cons, List.cons_append, List.nil_append, decodeBytes, hhi, hlo, ih,
      Option.bind_eq_bind, Option.bind_some, hb, UInt8.ofNat_toNat]
    rfl

theorem encode_injective {a b : Bytes} (h : encode a = encode b) : a = b :=
  Option.some.inj (by rw [← decode_encode a, h, decode_encode])

/-- Accepted text consists of digits. -/
theorem isDigit_of_decodeBytes {s bytes : Bytes} (h : decodeBytes s = some bytes) :
    ∀ b ∈ s, (digitValue? b).isSome := by
  induction s using decodeBytes.induct generalizing bytes with
  | case1 => simp
  | case2 => simp [decodeBytes] at h
  | case3 hi lo rest ih =>
    simp only [decodeBytes, Option.bind_eq_bind, Option.bind_eq_some_iff] at h
    obtain ⟨vh, hhi, vl, hlo, tail, htail, -⟩ := h
    intro b hb
    simp only [List.mem_cons] at hb
    rcases hb with rfl | rfl | hb
    · simp [hhi]
    · simp [hlo]
    · exact ih htail b hb

/-- A byte that is no digit does not occur in accepted text. -/
theorem notMem_of_decode {s : String} {bytes : Bytes} (h : decode s = some bytes) {b : UInt8}
    (hb : digitValue? b = none) : b ∉ utf8 s := by
  intro hmem
  have hsome := isDigit_of_decodeBytes h b hmem
  simp [hb] at hsome

end Hex
