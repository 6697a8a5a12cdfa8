import Mathlib.Algebra.GroupWithZero.Nat
import Mathlib.Data.List.Basic
import Mathlib.Data.String.Basic

/-!
# Slicing UTF-8 text at byte offsets

A text is the list of its characters and a position in it is a byte offset, as in languages whose
strings are UTF-8. Only the offsets between two characters are **boundaries**: `cut` takes a text
apart at a boundary and fails at any other offset.

* `cut_eq_some`: a text is cut where a beginning of it has the given size.
* `cut_inside`: an offset within a character is no boundary.
* `encode_of_wide`: in the bytes of a character of more than one byte, the first is at least
  `0xC0` and the others are continuation bytes, so single bytes can be told from parts of others.
* `Boundary.between`: two boundaries in order have a text between them.
-/

namespace Slices

/-- Length in bytes. -/
def size (t : List Char) : ℕ := (t.map Char.utf8Size).sum

@[simp] theorem size_nil : size [] = 0 := rfl

@[simp] theorem size_cons (c : Char) (t : List Char) : size (c :: t) = c.utf8Size + size t := rfl

@[simp] theorem size_append (a b : List Char) : size (a ++ b) = size a + size b := by
  simp [size]

theorem size_pos {t : List Char} (h : t ≠ []) : 0 < size t := by
  obtain ⟨c, t, rfl⟩ := List.exists_cons_of_ne_nil h
  have hc := Char.utf8Size_pos c
  rw [size_cons]
  omega

theorem size_eq_zero {t : List Char} (h : size t = 0) : t = [] := by
  by_contra hne
  have hpos := size_pos hne
  omega

/-- Replacing characters by others of the same size keeps every offset. -/
theorem size_map {f : Char → Char} (hf : ∀ c, (f c).utf8Size = c.utf8Size) (t : List Char) :
    size (t.map f) = size t := by
  simp [size, Function.comp_def, hf]

/-- The text before and after an offset, if it is a boundary. -/
def cut (n : ℕ) : List Char → Option (List Char × List Char)
  | [] => if n = 0 then some ([], []) else none
  | c :: t =>
    if n = 0 then some ([], c :: t)
    else if c.utf8Size ≤ n then (cut (n - c.utf8Size) t).map fun p => (c :: p.1, p.2)
    else none

/-- A text is cut where a beginning of it has the given size. -/
theorem cut_eq_some {n : ℕ} {t a b : List Char} :
    cut n t = some (a, b) ↔ t = a ++ b ∧ size a = n := by
  induction t generalizing n a with
  | nil =>
    rw [cut]
    split_ifs with hn
    · constructor
      · intro h
        obtain ⟨rfl, rfl⟩ := Prod.mk.inj (Option.some.inj h)
        exact ⟨rfl, hn.symm⟩
      · rintro ⟨h, -⟩
        obtain ⟨rfl, rfl⟩ := List.append_eq_nil_iff.mp h.symm
        rfl
    · refine iff_of_false nofun ?_
      rintro ⟨h, hsize⟩
      obtain ⟨rfl, rfl⟩ := List.append_eq_nil_iff.mp h.symm
      exact hn hsize.symm
  | cons c t ih =>
    have hc := Char.utf8Size_pos c
    rw [cut]
    split_ifs with hn hle
    · constructor
      · intro h
        obtain ⟨rfl, rfl⟩ := Prod.mk.inj (Option.some.inj h)
        exact ⟨rfl, hn.symm⟩
      · rintro ⟨h, hsize⟩
        obtain rfl : a = [] := size_eq_zero (hsize.trans hn)
        rw [h]
        rfl
    · constructor
      · intro h
        obtain ⟨⟨a', b'⟩, hcut, hp⟩ := Option.map_eq_some_iff.mp h
        obtain ⟨rfl, rfl⟩ := Prod.mk.inj hp
        obtain ⟨rfl, hsize⟩ := ih.mp hcut
        refine ⟨rfl, ?_⟩
        simp only [size_cons, hsize]
        omega
      · rintro ⟨h, hsize⟩
        cases a with
        | nil => exact absurd hsize.symm hn
        | cons d a =>
          obtain ⟨rfl, rfl⟩ := List.cons.inj h
          rw [size_cons] at hsize
          have hcut : cut (n - c.utf8Size) (a ++ b) = some (a, b) :=
            ih.mpr ⟨rfl, by omega⟩
          exact Option.map_eq_some_iff.mpr ⟨(a, b), hcut, rfl⟩
    · refine iff_of_false nofun ?_
      rintro ⟨h, hsize⟩
      cases a with
      | nil => exact hn hsize.symm
      | cons d a =>
        obtain ⟨rfl, -⟩ := List.cons.inj h
        rw [size_cons] at hsize
        omega

@[simp] theorem cut_size_append (a b : List Char) : cut (size a) (a ++ b) = some (a, b) :=
  cut_eq_some.mpr ⟨rfl, rfl⟩

/-- An offset within a character is no boundary. -/
theorem cut_inside (a : List Char) (c : Char) (b : List Char) {k : ℕ} (hk : 0 < k)
    (hc : k < c.utf8Size) : cut (size a + k) (a ++ c :: b) = none := by
  rw [Option.eq_none_iff_forall_ne_some]
  rintro ⟨a', b'⟩ h
  obtain ⟨heq, hsize⟩ := cut_eq_some.mp h
  rcases List.append_eq_append_iff.mp heq with ⟨d, rfl, hd⟩ | ⟨d, rfl, -⟩
  · cases d with
    | nil =>
      rw [List.append_nil] at hsize
      omega
    | cons e d =>
      obtain ⟨rfl, -⟩ := List.cons.inj hd
      rw [size_append, size_cons] at hsize
      omega
  · rw [size_append] at hsize
    omega

/-! ### Bytes -/

/-- The UTF-8 bytes of a text. -/
def bytes (t : List Char) : List UInt8 := t.flatMap String.utf8EncodeChar

@[simp] theorem bytes_nil : bytes [] = [] := rfl

@[simp] theorem bytes_cons (c : Char) (t : List Char) :
    bytes (c :: t) = String.utf8EncodeChar c ++ bytes t := rfl

@[simp] theorem bytes_append (a b : List Char) : bytes (a ++ b) = bytes a ++ bytes b := by
  simp [bytes]

@[simp] theorem length_bytes (t : List Char) : (bytes t).length = size t := by
  induction t with
  | nil => rfl
  | cons c t ih => rw [bytes_cons, List.length_append, String.length_utf8EncodeChar, ih, size_cons]

/-- A byte that continues a character. -/
def IsContinuation (b : UInt8) : Prop := 0x80 ≤ b ∧ b < 0xC0

instance (b : UInt8) : Decidable (IsContinuation b) := inferInstanceAs (Decidable (_ ∧ _))

/-- A character of more than one byte. -/
def Wide (c : Char) : Prop := 128 ≤ c.toNat

instance (c : Char) : Decidable (Wide c) := inferInstanceAs (Decidable (_ ≤ _))

theorem encode_of_not_wide {c : Char} (h : ¬Wide c) :
    String.utf8EncodeChar c = [UInt8.ofNat c.toNat] := by
  have hv : c.val.toNat ≤ 0x7f := by
    have hlt : ¬128 ≤ c.val.toNat := h
    omega
  rw [String.utf8EncodeChar, if_pos hv]
  rfl

theorem isContinuation_ofNat (n : ℕ) : IsContinuation (UInt8.ofNat (n % 64 + 0x80)) := by
  rw [IsContinuation, UInt8.le_iff_toNat_le, UInt8.lt_iff_toNat_lt, UInt8.toNat_ofNat']
  have hlow : (0x80 : UInt8).toNat = 0x80 := rfl
  have hhigh : (0xC0 : UInt8).toNat = 0xC0 := rfl
  omega

theorem lead_le_ofNat {n k : ℕ} (hn : n < 0x20) (hk : 0xC0 ≤ k) (hk' : n + k < 256) :
    0xC0 ≤ UInt8.ofNat (n + k) := by
  rw [UInt8.le_iff_toNat_le, UInt8.toNat_ofNat']
  have hlow : (0xC0 : UInt8).toNat = 0xC0 := rfl
  omega

/-- The bytes of a wide character. -/
theorem encode_of_wide {c : Char} (h : Wide c) : ∃ b bs, String.utf8EncodeChar c = b :: bs ∧
    0xC0 ≤ b ∧ bs ≠ [] ∧ ∀ x ∈ bs, IsContinuation x := by
  have hv : ¬c.val.toNat ≤ 0x7f := by
    have hle : 128 ≤ c.val.toNat := h
    omega
  rw [String.utf8EncodeChar, if_neg hv]
  split_ifs
  · refine ⟨_, _, rfl, lead_le_ofNat (by omega) (by omega) (by omega), by simp, ?_⟩
    simp only [List.forall_mem_cons]
    exact ⟨isContinuation_ofNat _, by simp⟩
  · refine ⟨_, _, rfl, lead_le_ofNat (by omega) (by omega) (by omega), by simp, ?_⟩
    simp only [List.forall_mem_cons]
    exact ⟨isContinuation_ofNat _, isContinuation_ofNat _, by simp⟩
  · refine ⟨_, _, rfl, lead_le_ofNat (by omega) (by omega) (by omega), by simp, ?_⟩
    simp only [List.forall_mem_cons]
    exact ⟨isContinuation_ofNat _, isContinuation_ofNat _, isContinuation_ofNat _, by simp⟩

theorem utf8Size_of_not_wide {c : Char} (h : ¬Wide c) : c.utf8Size = 1 := by
  rw [← String.length_utf8EncodeChar, encode_of_not_wide h, List.length_singleton]

theorem one_lt_utf8Size_of_wide {c : Char} (h : Wide c) : 1 < c.utf8Size := by
  obtain ⟨b, bs, heq, -, hne, -⟩ := encode_of_wide h
  rw [← String.length_utf8EncodeChar, heq, List.length_cons]
  have hpos := List.length_pos_iff.mpr hne
  omega

/-- The bytes from a boundary on. -/
theorem drop_bytes (a b : List Char) : (bytes (a ++ b)).drop (size a) = bytes b := by
  rw [bytes_append, ← length_bytes a, List.drop_left]

/-- The bytes from an offset within a character on open with a continuation byte. -/
theorem drop_bytes_inside (a : List Char) (c : Char) (t : List Char) {k : ℕ} (hk : 0 < k)
    (hc : k < c.utf8Size) : ∃ b rest, (bytes (a ++ c :: t)).drop (size a + k) = b :: rest ∧
      IsContinuation b := by
  have hwide : Wide c := by
    by_contra h
    have hone := utf8Size_of_not_wide h
    omega
  obtain ⟨lead, bs, heq, -, -, hbs⟩ := encode_of_wide hwide
  have hlength : bs.length + 1 = c.utf8Size := by
    rw [← String.length_utf8EncodeChar, heq, List.length_cons]
  obtain ⟨k, rfl⟩ : ∃ j, k = j + 1 := ⟨k - 1, by omega⟩
  rw [← List.drop_drop, drop_bytes, bytes_cons, heq, List.cons_append, List.drop_succ_cons,
    List.drop_append_of_le_length (by omega), List.drop_eq_getElem_cons (by omega)]
  exact ⟨_, _, rfl, hbs _ (List.getElem_mem _)⟩

/-- All bytes of a wide character are high. -/
theorem high_of_wide {c : Char} (h : Wide c) : ∀ b ∈ String.utf8EncodeChar c, 0x80 ≤ b := by
  obtain ⟨lead, bs, heq, hlead, -, hbs⟩ := encode_of_wide h
  rw [heq]
  intro b hb
  rcases List.mem_cons.mp hb with rfl | hb
  · exact UInt8.le_trans (by decide) hlead
  · exact (hbs b hb).1

/-- A byte that is not high is a character of its own. -/
theorem mem_bytes {c : Char} (hc : ¬Wide c) {t : List Char} :
    UInt8.ofNat c.toNat ∈ bytes t ↔ c ∈ t := by
  have hlt : c.toNat < 128 := Nat.lt_of_not_le hc
  have hbyte : (UInt8.ofNat c.toNat).toNat = c.toNat := by
    rw [UInt8.toNat_ofNat']
    omega
  rw [bytes, List.mem_flatMap]
  refine ⟨fun ⟨d, hd, hmem⟩ => ?_, fun h => ⟨c, h, by simp [encode_of_not_wide hc]⟩⟩
  by_cases hwide : Wide d
  · have hhigh := UInt8.le_iff_toNat_le.mp (high_of_wide hwide _ hmem)
    rw [hbyte, show (0x80 : UInt8).toNat = 128 from rfl] at hhigh
    omega
  · have hltd : d.toNat < 128 := Nat.lt_of_not_le hwide
    rw [encode_of_not_wide hwide, List.mem_singleton] at hmem
    have hnat := congrArg UInt8.toNat hmem
    rw [hbyte, UInt8.toNat_ofNat', Nat.mod_eq_of_lt (by omega)] at hnat
    rwa [Char.toNat_inj.mp hnat]

/-- A byte tells which character of one byte it is. -/
theorem byte_inj {c d : Char} (hc : ¬Wide c) (hd : ¬Wide d) :
    UInt8.ofNat c.toNat = UInt8.ofNat d.toNat ↔ c = d := by
  have hlt : c.toNat < 128 := Nat.lt_of_not_le hc
  have hlt' : d.toNat < 128 := Nat.lt_of_not_le hd
  constructor
  · intro h
    have hmod := congrArg UInt8.toNat h
    rw [UInt8.toNat_ofNat', UInt8.toNat_ofNat', Nat.mod_eq_of_lt (by omega),
      Nat.mod_eq_of_lt (by omega)] at hmod
    exact Char.toNat_inj.mp hmod
  · rintro rfl
    rfl

/-- The first byte of a text tells which character of one byte it opens with. -/
theorem head_bytes {c d : Char} (hd : ¬Wide d) (t : List Char) :
    (bytes (c :: t)).head? = some (UInt8.ofNat d.toNat) ↔ c = d := by
  by_cases hc : Wide c
  · obtain ⟨lead, bs, heq, hlead, -⟩ := encode_of_wide hc
    have hlt : d.toNat < 128 := Nat.lt_of_not_le hd
    rw [bytes_cons, heq, List.cons_append, List.head?_cons, Option.some.injEq]
    refine iff_of_false ?_ ?_
    · rintro rfl
      rw [UInt8.le_iff_toNat_le, UInt8.toNat_ofNat'] at hlead
      have hlow : (0xC0 : UInt8).toNat = 0xC0 := rfl
      omega
    · rintro rfl
      exact hd hc
  · rw [bytes_cons, encode_of_not_wide hc, List.cons_append, List.head?_cons, Option.some.injEq]
    exact byte_inj hc hd

/-! ### Boundaries -/

/-- An offset between two characters, or an end of the text. -/
def Boundary (s : List Char) (n : ℕ) : Prop := ∃ a b, s = a ++ b ∧ size a = n

theorem boundary_zero (s : List Char) : Boundary s 0 := ⟨[], s, rfl, rfl⟩

theorem boundary_size (s : List Char) : Boundary s (size s) := ⟨s, [], by simp, rfl⟩

theorem boundary_size_append (a b : List Char) : Boundary (a ++ b) (size a) := ⟨a, b, rfl, rfl⟩

theorem boundary_takeWhile (p : Char → Bool) (s : List Char) :
    Boundary s (size (s.takeWhile p)) :=
  ⟨_, _, List.takeWhile_append_dropWhile.symm, rfl⟩

theorem Boundary.le {s : List Char} {n : ℕ} (h : Boundary s n) : n ≤ size s := by
  obtain ⟨a, b, rfl, rfl⟩ := h
  rw [size_append]
  omega

theorem Boundary.append_left {s : List Char} {n : ℕ} (h : Boundary s n) (a : List Char) :
    Boundary (a ++ s) (size a + n) := by
  obtain ⟨b, c, rfl, rfl⟩ := h
  exact ⟨a ++ b, c, by rw [List.append_assoc], size_append a b⟩

/-- Replacing characters by others of the same size keeps the boundaries. -/
theorem Boundary.map {f : Char → Char} (hf : ∀ c, (f c).utf8Size = c.utf8Size) {s : List Char}
    {n : ℕ} (h : Boundary s n) : Boundary (s.map f) n := by
  obtain ⟨a, b, rfl, rfl⟩ := h
  exact ⟨a.map f, b.map f, List.map_append, size_map hf a⟩

theorem Boundary.of_map {f : Char → Char} (hf : ∀ c, (f c).utf8Size = c.utf8Size) {s : List Char}
    {n : ℕ} (h : Boundary (s.map f) n) : Boundary s n := by
  obtain ⟨a, b, heq, rfl⟩ := h
  obtain ⟨a, b, rfl, rfl, rfl⟩ := List.map_eq_append_iff.mp heq
  exact ⟨a, b, rfl, (size_map hf a).symm⟩

/-- A text is determined by what it continues to and its size. -/
theorem append_inj_of_size {a b a' b' : List Char} (h : a ++ b = a' ++ b')
    (hsize : size a = size a') : a = a' ∧ b = b' := by
  have hcut : cut (size a) (a ++ b) = some (a', b') := cut_eq_some.mpr ⟨h, hsize.symm⟩
  rw [cut_size_append] at hcut
  obtain ⟨ha, hb⟩ := Prod.mk.inj (Option.some.inj hcut)
  exact ⟨ha, hb⟩

/-- Of two beginnings of a text the longer goes on from the shorter. -/
theorem exists_append_of_size_le {a b a' b' : List Char} (h : a ++ b = a' ++ b')
    (hle : size a ≤ size a') : ∃ m, a' = a ++ m ∧ b = m ++ b' := by
  rcases List.append_eq_append_iff.mp h with ⟨d, rfl, rfl⟩ | ⟨d, rfl, rfl⟩
  · exact ⟨d, rfl, rfl⟩
  · rw [size_append] at hle
    obtain rfl : d = [] := size_eq_zero (by omega)
    exact ⟨[], by simp, rfl⟩

/-- The text between two boundaries. -/
theorem Boundary.between {s : List Char} {i j : ℕ} (hi : Boundary s i) (hj : Boundary s j)
    (hij : i ≤ j) : ∃ a m b, s = a ++ (m ++ b) ∧ size a = i ∧ size a + size m = j := by
  obtain ⟨a, b, rfl, rfl⟩ := hi
  obtain ⟨a', b', heq, rfl⟩ := hj
  obtain ⟨m, rfl, rfl⟩ := exists_append_of_size_le heq hij
  exact ⟨a, m, b', rfl, rfl, (size_append a m).symm⟩

/-- The byte before a boundary belongs to the character before it. -/
theorem byte_before (a : List Char) (c : Char) (b : List Char) :
    ∃ x, (bytes (a ++ c :: b))[size a + c.utf8Size - 1]? = some x ∧
      (x < 0x80 → x = UInt8.ofNat c.toNat ∧ c.toNat < 128) := by
  have hc := Char.utf8Size_pos c
  have hdrop := drop_bytes a (c :: b)
  have hget : (bytes (a ++ c :: b))[size a + c.utf8Size - 1]? =
      (String.utf8EncodeChar c)[c.utf8Size - 1]? := by
    rw [show size a + c.utf8Size - 1 = size a + (c.utf8Size - 1) by omega, ← List.getElem?_drop,
      hdrop, bytes_cons, List.getElem?_append_left]
    rw [String.length_utf8EncodeChar]
    omega
  by_cases hwide : Wide c
  · obtain ⟨lead, bs, heq, -, hne, hbs⟩ := encode_of_wide hwide
    have hlength : bs.length + 1 = c.utf8Size := by
      rw [← String.length_utf8EncodeChar, heq, List.length_cons]
    have hpos := List.length_pos_iff.mpr hne
    obtain ⟨k, hk⟩ : ∃ k, c.utf8Size - 1 = k + 1 := ⟨c.utf8Size - 2, by omega⟩
    have hk' : k < bs.length := by omega
    refine ⟨bs[k], ?_, ?_⟩
    · rw [hget, heq, hk, List.getElem?_cons_succ, List.getElem?_eq_getElem hk']
    · intro hlt
      exact absurd (hbs _ (List.getElem_mem hk')).1 (UInt8.not_le.mpr hlt)
  · refine ⟨UInt8.ofNat c.toNat, ?_, ?_⟩
    · rw [hget, encode_of_not_wide hwide, utf8Size_of_not_wide hwide]
      rfl
    · intro _
      exact ⟨rfl, Nat.lt_of_not_le hwide⟩

end Slices
