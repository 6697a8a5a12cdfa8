import Sysknife.Lib.Bytes
import Sysknife.Lib.Decoding
import Sysknife.Lib.Slices

/-!
# Entries for journald

`journal.rs` sends a list of fields to journald as one datagram. A value without a newline goes
on the line of its key, behind `=`; one with a newline goes behind the key's line, with its
length in front. The values are texts of models and of the host.

`parseEntry` is the receiving side, as the protocol describes it. `parseEntry_entry` says that it
finds the fields that were sent: the choice between the two forms is visible in the datagram,
since a key holds no `=`, and the length tells where a value ends that may hold anything.
-/

namespace Sysknife.Journal

open Decoding

/-- A field of an entry. A `&str` holds fewer than `2 ^ 63` bytes. -/
structure Field where
  key : String
  value : String
  value_lt : (utf8 value).length < 2 ^ 64

/-- `b'\n'` -/
def newline : UInt8 := 10

/-- `b'='` -/
def equals : UInt8 := 61

/-- The bytes `try_send` appends for a field. -/
def Field.encode (field : Field) : Bytes :=
  if field.value.toList.contains '\n' then
    utf8 field.key ++ [newline] ++ littleEndian 8 (utf8 field.value).length ++ utf8 field.value ++
      [newline]
  else utf8 field.key ++ [equals] ++ utf8 field.value ++ [newline]

/-- The datagram of an entry. -/
def entry (fields : List Field) : Bytes := fields.flatMap Field.encode

/-- What `try_send` hands to the socket: nothing where there is no journal. -/
def trySend (socketExists : Bool) (fields : List Field) : Option Bytes :=
  if socketExists then some (entry fields) else none

/-! ### The receiving side -/

/-- A value behind its length, and the newline after it. -/
def parseSized (key : Bytes) (text : Bytes) : Option ((Bytes × Bytes) × Bytes) :=
  let size := ofLittleEndian (text.take 8)
  let value := (text.drop 8).take size
  match (text.drop 8).drop size with
  | b :: rest => if b = newline ∧ 8 ≤ text.length then some ((key, value), rest) else none
  | [] => none

/-- One field. A line with `=` holds key and value; a line without is a key. -/
def parseField : Reader UInt8 (Bytes × Bytes) := fun text => do
  let (line, rest) ← token (· != newline) text
  let (key, value) ← token (· != equals) line
  match value with
  | _ :: value => some ((key, value), rest.drop 1)
  | [] => parseSized key (rest.drop 1)

/-- The fields of a datagram. -/
def parseEntry : Bytes → Option (List (Bytes × Bytes)) := all parseField

/-! ### What is received is what was sent -/

theorem utf8_eq_bytes (s : String) : utf8 s = Slices.bytes s.toList := by
  have htext : s.toByteArray = s.toList.utf8Encode := by
    rw [← String.toByteArray_ofList, String.ofList_toList]
  rw [utf8, htext, List.utf8Encode]
  simp [Slices.bytes]

theorem newline_mem_utf8 {s : String} : newline ∈ utf8 s ↔ '\n' ∈ s.toList := by
  rw [utf8_eq_bytes]
  exact Slices.mem_bytes (c := '\n') (by decide)

theorem equals_mem_utf8 {s : String} : equals ∈ utf8 s ↔ '=' ∈ s.toList := by
  rw [utf8_eq_bytes]
  exact Slices.mem_bytes (c := '=') (by decide)

/-- A key that leaves the framing alone. -/
def PlainKey (key : String) : Prop := '=' ∉ key.toList ∧ '\n' ∉ key.toList

section Fields

variable {field : Field} {fields : List Field}

theorem parseSized_read (key value rest : Bytes) (h : value.length < 2 ^ 64) :
    parseSized key (littleEndian 8 value.length ++ (value ++ newline :: rest)) =
      some ((key, value), rest) := by
  have hlength := length_littleEndian 8 value.length
  have hsize : ofLittleEndian (littleEndian 8 value.length) = value.length :=
    ofLittleEndian_littleEndian (by omega)
  have htake : (littleEndian 8 value.length ++ (value ++ newline :: rest)).take 8 =
      littleEndian 8 value.length := List.take_left' hlength
  have hdrop : (littleEndian 8 value.length ++ (value ++ newline :: rest)).drop 8 =
      value ++ newline :: rest := List.drop_left' hlength
  have hroom : 8 ≤ (littleEndian 8 value.length ++ (value ++ newline :: rest)).length := by
    rw [List.length_append, hlength]
    omega
  simp only [parseSized, htake, hdrop, hsize, List.take_left, List.drop_left,
    true_and, if_pos hroom]

/-- A token goes on to its end mark. -/
theorem stops (mark : UInt8) (rest : Bytes) :
    ∀ b ∈ (mark :: rest).head?, (b != mark) = false := by
  simp

/-- A field is read off the front of a datagram, whatever follows it. -/
theorem reads_encode (h : PlainKey field.key) : Reads parseField Field.encode
    (fun f => (utf8 f.key, utf8 f.value)) field := by
  intro rest
  have hnewline : ∀ b ∈ utf8 field.key, (b != newline) = true := fun b hb =>
    bne_iff_ne.mpr fun heq => h.2 (newline_mem_utf8.mp (heq ▸ hb))
  have hequals : ∀ b ∈ utf8 field.key, (b != equals) = true := fun b hb =>
    bne_iff_ne.mpr fun heq => h.1 (equals_mem_utf8.mp (heq ▸ hb))
  by_cases hvalue : '\n' ∈ field.value.toList
  · have htext : field.encode ++ rest = utf8 field.key ++ newline ::
        (littleEndian 8 (utf8 field.value).length ++ (utf8 field.value ++ newline :: rest)) := by
      simp [Field.encode, hvalue]
    have hline := reads_token hnewline (stops newline
      (littleEndian 8 (utf8 field.value).length ++ (utf8 field.value ++ newline :: rest)))
    have hkey := reads_token hequals fun b (hb : b ∈ ([] : Bytes).head?) => nomatch hb
    rw [List.append_nil] at hkey
    simp only [htext, parseField, hline, hkey, Option.bind_eq_bind, Option.bind_some,
      List.drop_succ_cons, List.drop_zero]
    exact parseSized_read _ _ _ field.value_lt
  · have htext : field.encode ++ rest =
        (utf8 field.key ++ equals :: utf8 field.value) ++ newline :: rest := by
      simp [Field.encode, hvalue]
    have hvalue : ∀ b ∈ utf8 field.value, (b != newline) = true := fun b hb =>
      bne_iff_ne.mpr fun heq => hvalue (newline_mem_utf8.mp (heq ▸ hb))
    have hwhole : ∀ b ∈ utf8 field.key ++ equals :: utf8 field.value, (b != newline) = true := by
      rw [List.forall_mem_append, List.forall_mem_cons]
      exact ⟨hnewline, by decide, hvalue⟩
    have hline := reads_token hwhole (stops newline rest)
    have hkey := reads_token hequals (stops equals (utf8 field.value))
    simp only [htext, parseField, hline, hkey, Option.bind_eq_bind, Option.bind_some,
      List.drop_succ_cons, List.drop_zero]

theorem encode_ne_nil : field.encode ≠ [] := by
  rw [Field.encode]
  split_ifs <;> simp

/-- **What journald reads is what was sent:** the same fields, in the same order, whatever their
values hold. -/
theorem parseEntry_trySend (h : ∀ f ∈ fields, PlainKey f.key) :
    (trySend true fields).bind parseEntry =
      some (fields.map fun f => (utf8 f.key, utf8 f.value)) :=
  all_flatMap (fun f hf => reads_encode (h f hf)) fun _ _ => encode_ne_nil

theorem parseEntry_trySend_lookalike :
    (trySend true [⟨"MESSAGE", "a\nPRIORITY=0\n", by decide +kernel⟩,
      ⟨"EVENT", "b=c", by decide +kernel⟩]).bind parseEntry =
      some [(utf8 "MESSAGE", utf8 "a\nPRIORITY=0\n"), (utf8 "EVENT", utf8 "b=c")] :=
  parseEntry_trySend (by simp [PlainKey])

/-- No two entries look the same. -/
theorem entry_injective {fields' : List Field} (h : ∀ f ∈ fields, PlainKey f.key)
    (h' : ∀ f ∈ fields', PlainKey f.key) (heq : entry fields = entry fields') :
    fields = fields' := by
  have hread := all_flatMap (fun f hf => reads_encode (h f hf)) fun _ _ => encode_ne_nil
  have hread' := all_flatMap (fun f hf => reads_encode (h' f hf)) fun _ _ => encode_ne_nil
  rw [show fields.flatMap Field.encode = fields'.flatMap Field.encode from heq, hread',
    Option.some.injEq] at hread
  refine (List.map_injective_iff.mpr fun f g hfg => ?_) hread.symm
  obtain ⟨key, value, hvalue⟩ := f
  obtain ⟨key', value', hvalue'⟩ := g
  obtain ⟨hkey, hvalue⟩ := Prod.mk.inj hfg
  obtain rfl := utf8_injective hkey
  obtain rfl := utf8_injective hvalue
  rfl

end Fields

end Sysknife.Journal
