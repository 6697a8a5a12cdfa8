import Mathlib.Algebra.Group.Nat.Defs
import Mathlib.Data.List.Basic

/-!
# Decoders that read items off the front

A **reader** takes one item off the front of a text and leaves the rest. It reads a printer back
(`Reads`) if what it takes off is what the printer wrote, whatever follows. Two loops around a
reader keep that property: `all` goes on to the end of the text (`all_flatMap`), `until` to a
closing mark that opens no item (`until_flatMap`).

A number of fixed width is read back too (`ofLittleEndian_littleEndian`).
-/

universe u v w

namespace Decoding

variable {α : Type u} {β : Type v} {γ : Type w}

/-- One item off the front of a text. -/
abbrev Reader (β : Type v) (γ : Type w) := List β → Option (γ × List β)

/-- What `print` writes for an item is read as `view` of it, whatever follows. -/
def Reads (read : Reader β γ) (print : α → List β) (view : α → γ) (a : α) : Prop :=
  ∀ rest, read (print a ++ rest) = some (view a, rest)

/-- Items to the end of the text. A reader that does not go on fails. -/
def all (read : Reader β γ) : List β → Option (List γ)
  | [] => some []
  | b :: text =>
    match read (b :: text) with
    | none => none
    | some (c, rest) =>
      if rest.length < text.length + 1 then (all read rest).map (c :: ·) else none
termination_by text => text.length

/-- Items up to a closing mark, which is taken off as well. -/
def upTo [DecidableEq β] (close : β) (read : Reader β γ) : Reader β (List γ)
  | [] => none
  | b :: text =>
    if b = close then some ([], text)
    else
      match read (b :: text) with
      | none => none
      | some (c, rest) =>
        if rest.length < text.length + 1 then
          (upTo close read rest).map fun found => (c :: found.1, found.2)
        else none
termination_by text => text.length

variable {read : Reader β γ} {print : α → List β} {view : α → γ} {items : List α}

/-- **A record is read back.** Items that were written one after the other are found again, as
many as there were and in their order. -/
theorem all_flatMap (h : ∀ a ∈ items, Reads read print view a)
    (hprint : ∀ a ∈ items, print a ≠ []) :
    all read (items.flatMap print) = some (items.map view) := by
  induction items with
  | nil => rw [List.flatMap_nil, all, List.map_nil]
  | cons a items ih =>
    have hread := h a List.mem_cons_self (items.flatMap print)
    have ih := ih (fun b hb => h b (List.mem_cons_of_mem a hb))
      fun b hb => hprint b (List.mem_cons_of_mem a hb)
    obtain ⟨b, text, htext⟩ := List.exists_cons_of_ne_nil (hprint a List.mem_cons_self)
    have hshorter : (items.flatMap print).length < (text ++ items.flatMap print).length + 1 := by
      rw [List.length_append]
      omega
    rw [htext, List.cons_append] at hread
    rw [List.flatMap_cons, htext, List.cons_append, all]
    simp only [hread, if_pos hshorter, ih, Option.map_some, List.map_cons]

/-- The same up to a closing mark that opens no item. -/
theorem upTo_flatMap [DecidableEq β] {close : β} (h : ∀ a ∈ items, Reads read print view a)
    (hprint : ∀ a ∈ items, ∃ b text, print a = b :: text ∧ b ≠ close) (rest : List β) :
    upTo close read (items.flatMap print ++ close :: rest) = some (items.map view, rest) := by
  induction items with
  | nil => rw [List.flatMap_nil, List.nil_append, upTo, if_pos rfl, List.map_nil]
  | cons a items ih =>
    have hread := h a List.mem_cons_self (items.flatMap print ++ close :: rest)
    have ih := ih (fun b hb => h b (List.mem_cons_of_mem a hb))
      fun b hb => hprint b (List.mem_cons_of_mem a hb)
    obtain ⟨b, text, htext, hclose⟩ := hprint a List.mem_cons_self
    have hshorter : (items.flatMap print ++ close :: rest).length <
        (text ++ (items.flatMap print ++ close :: rest)).length + 1 := by
      simp only [List.length_append]
      omega
    rw [htext, List.cons_append] at hread
    rw [List.flatMap_cons, List.append_assoc, htext, List.cons_append, upTo, if_neg hclose]
    simp only [hread, if_pos hshorter, ih, Option.map_some, List.map_cons]

/-- A token of one class of symbols, off the front of a text. -/
def token (p : β → Bool) : Reader β (List β) :=
  fun text => some (text.takeWhile p, text.dropWhile p)

theorem reads_token {p : β → Bool} {t rest : List β} (ht : ∀ b ∈ t, p b = true)
    (hrest : ∀ b ∈ rest.head?, p b = false) : token p (t ++ rest) = some (t, rest) := by
  have hstop : rest.takeWhile p = [] ∧ rest.dropWhile p = rest := by
    cases rest with
    | nil => simp
    | cons b rest => simp [hrest b rfl]
  rw [token, List.takeWhile_append_of_pos ht, List.dropWhile_append_of_pos ht, hstop.1, hstop.2,
    List.append_nil]

/-! ### Numbers of a fixed width -/

/-- The bytes of a number, the least first. -/
def littleEndian : ℕ → ℕ → List UInt8
  | 0, _ => []
  | width + 1, n => UInt8.ofNat n :: littleEndian width (n / 256)

def ofLittleEndian (bytes : List UInt8) : ℕ := bytes.foldr (fun b n => b.toNat + 256 * n) 0

@[simp]
theorem length_littleEndian (width n : ℕ) : (littleEndian width n).length = width := by
  induction width generalizing n with
  | zero => rfl
  | succ width ih => rw [littleEndian, List.length_cons, ih]

/-- A number that fits is read back. -/
theorem ofLittleEndian_littleEndian {width n : ℕ} (h : n < 256 ^ width) :
    ofLittleEndian (littleEndian width n) = n := by
  induction width generalizing n with
  | zero => simp_all [littleEndian, ofLittleEndian]
  | succ width ih =>
    have hdiv : n / 256 < 256 ^ width := by
      rw [Nat.div_lt_iff_lt_mul (by decide), ← Nat.pow_succ]
      exact h
    have hrest := ih hdiv
    rw [ofLittleEndian] at hrest
    rw [littleEndian, ofLittleEndian, List.foldr_cons, hrest, UInt8.toNat_ofNat']
    omega

end Decoding
