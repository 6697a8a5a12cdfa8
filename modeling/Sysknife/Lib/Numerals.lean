import Mathlib.Data.String.Basic

/-!
# Decimal numerals of a fixed width

A number below `10 ^ k` written with zeros in front of it fills `k` places (`length_padded`), and
texts of one width are in the order of their numbers (`padded_lt_padded_iff`). A text made of fields
of fixed width is compared field by field (`append_lt_append_iff`).
-/

namespace Numerals

/-- A number in decimal, with zeros in front up to a width. -/
def padded (width n : ℕ) : List Char :=
  List.replicate (width - (Nat.toDigits 10 n).length) '0' ++ Nat.toDigits 10 n

/-! ### Fields of one width -/

variable {α : Type*} [LT α]

/-- Behind two fields of one width the rest decides only where the fields agree. -/
theorem append_lt_append_iff [Std.Irrefl fun a b : α => a < b] {a a' b b' : List α}
    (h : a.length = a'.length) : a ++ b < a' ++ b' ↔ a < a' ∨ a = a' ∧ b < b' := by
  induction a generalizing a' with
  | nil =>
    obtain rfl := List.length_eq_zero_iff.mp h.symm
    simp
  | cons x a ih =>
    obtain ⟨y, a', rfl⟩ := List.exists_cons_of_length_eq_add_one h.symm
    have hrest := ih (by simpa using h)
    simp only [List.cons_append, List.cons_lt_cons_iff, hrest, List.cons.injEq]
    constructor
    · rintro (hlt | ⟨rfl, hlt | ⟨rfl, hlt⟩⟩)
      · exact .inl (.inl hlt)
      · exact .inl (.inr ⟨rfl, hlt⟩)
      · exact .inr ⟨⟨rfl, rfl⟩, hlt⟩
    · rintro ((hlt | ⟨rfl, hlt⟩) | ⟨⟨rfl, rfl⟩, hlt⟩)
      · exact .inl hlt
      · exact .inr ⟨rfl, .inl hlt⟩
      · exact .inr ⟨rfl, .inr ⟨rfl, hlt⟩⟩

/-! ### One field -/

/-- The last digit comes off the end. -/
theorem padded_add_two (k n : ℕ) :
    padded (k + 2) n = padded (k + 1) (n / 10) ++ [Nat.digitChar (n % 10)] := by
  rcases Nat.lt_or_ge n 10 with hn | hn
  · have hzero : n / 10 = 0 := by omega
    have hself : n % 10 = n := by omega
    have hlast : padded (k + 1) 0 = List.replicate (k + 1) '0' := by
      rw [padded, Nat.toDigits_zero, List.length_singleton, Nat.add_sub_cancel,
        List.replicate_succ']
    rw [padded, Nat.toDigits_of_lt_base hn, hzero, hself, hlast]
    rfl
  · have hlength : k + 2 - ((Nat.toDigits 10 (n / 10)).length + 1) =
        k + 1 - (Nat.toDigits 10 (n / 10)).length := by omega
    rw [padded, Nat.toDigits_of_base_le (by omega) hn, List.length_append, List.length_singleton,
      hlength, padded, List.append_assoc]

theorem length_padded {width n : ℕ} (h : n < 10 ^ (width + 1)) :
    (padded (width + 1) n).length = width + 1 := by
  have hlength : (Nat.toDigits 10 n).length ≤ width + 1 :=
    (Nat.length_toDigits_le_iff (by omega) (by omega)).mpr h
  rw [padded, List.length_append, List.length_replicate]
  omega

theorem digitChar_lt_digitChar {m n : ℕ} (hm : m < 10) (hn : n < 10) :
    Nat.digitChar m < Nat.digitChar n ↔ m < n := by
  rw [Char.lt_def, UInt32.lt_iff_toNat_lt]
  change (Nat.digitChar m).toNat < (Nat.digitChar n).toNat ↔ m < n
  rw [Nat.toNat_digitChar_of_lt_ten hm, Nat.toNat_digitChar_of_lt_ten hn]
  omega

theorem padded_one {n : ℕ} (h : n < 10) : padded 1 n = [Nat.digitChar n] := by
  rw [padded, Nat.toDigits_of_lt_base h]
  rfl

/-- A numeral is read back. -/
theorem ofDigitChars_padded (k n : ℕ) : Nat.ofDigitChars 10 (padded k n) 0 = n := by
  rw [padded, Nat.ofDigitChars_append, Nat.ofDigitChars_replicate_zero, Nat.mul_zero,
    Nat.ofDigitChars_ten_toDigits]

theorem padded_injective {k m n : ℕ} (h : padded k m = padded k n) : m = n := by
  have hread := congrArg (fun t => Nat.ofDigitChars 10 t 0) h
  rwa [ofDigitChars_padded, ofDigitChars_padded] at hread

theorem padded_lt_padded_iff {k m n : ℕ} (hm : m < 10 ^ (k + 1)) (hn : n < 10 ^ (k + 1)) :
    padded (k + 1) m < padded (k + 1) n ↔ m < n := by
  induction k generalizing m n with
  | zero =>
    rw [padded_one (by omega), padded_one (by omega), List.cons_lt_cons_iff,
      digitChar_lt_digitChar (by omega) (by omega)]
    simp
  | succ k ih =>
    have hm' : m / 10 < 10 ^ (k + 1) := by rw [Nat.pow_succ] at hm; omega
    have hn' : n / 10 < 10 ^ (k + 1) := by rw [Nat.pow_succ] at hn; omega
    have hlast : ([Nat.digitChar (m % 10)] < [Nat.digitChar (n % 10)]) ↔ m % 10 < n % 10 := by
      rw [List.cons_lt_cons_iff, digitChar_lt_digitChar (by omega) (by omega)]
      simp
    rw [padded_add_two, padded_add_two, append_lt_append_iff
      (by rw [length_padded hm', length_padded hn']), ih hm' hn', hlast]
    constructor
    · rintro (hlt | ⟨heq, hlt⟩)
      · omega
      · have := padded_injective heq
        omega
    · intro hlt
      by_cases heq : m / 10 = n / 10
      · exact .inr ⟨by rw [heq], by omega⟩
      · exact .inl (by omega)

end Numerals
