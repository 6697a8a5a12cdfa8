import Mathlib.Data.List.Basic

/-!
# Reading from a stream that arrives in pieces

A **source** holds the symbols a reader has not read yet, cut into the pieces they arrive in. One
read (`Source.read`) takes at most as many symbols as it asks for and never more than one piece,
so the cuts decide how many it gets; no symbol at all means the end. What follows the last piece
is the end or a failure.

`fill` reads until it has as many symbols as it wants. The cuts do not matter to it: it gets a
prefix of the symbols and leaves the rest (`fill_of_le`), or there are not enough and it fails
(`fill_of_lt`).
-/

universe u

/-- Symbols to be read, in the pieces they arrive in, and the failure that follows them, if any. -/
structure Source (α : Type u) (ε : Type) where
  pieces : List (List α)
  /-- A read without a symbol would be the end. -/
  nonempty : [] ∉ pieces
  failure : Option ε

/-- Why there were not enough symbols. -/
inductive Shortage (ε : Type)
  | endOfStream
  | failed (e : ε)
  deriving DecidableEq, Repr

namespace Source

variable {α : Type u} {ε : Type}

/-- Everything that will be read. -/
def symbols (s : Source α ε) : List α := s.pieces.flatten

/-- The source without its first `n` symbols, if the first piece is longer. -/
def afterRead (n : ℕ) : List (List α) → List (List α)
  | [] => []
  | p :: ps => if p.length ≤ n then ps else p.drop n :: ps

theorem nil_notMem_afterRead {n : ℕ} {pieces : List (List α)} (h : [] ∉ pieces) :
    [] ∉ afterRead n pieces := by
  cases pieces with
  | nil => exact h
  | cons p ps =>
    have hps : [] ∉ ps := fun hmem => h (List.mem_cons_of_mem _ hmem)
    rw [afterRead]
    split_ifs with hlen
    · exact hps
    · intro hmem
      obtain hnil | hmem := List.mem_cons.mp hmem
      · exact hlen (List.drop_eq_nil_iff.mp hnil.symm)
      · exact hps hmem

/-- One read of at most `n` symbols. -/
def read (s : Source α ε) (n : ℕ) : Except ε (List α × Source α ε) :=
  if s.pieces = [] then
    match s.failure with
    | some e => .error e
    | none => .ok ([], s)
  else
    .ok ((s.pieces.headD []).take n,
      ⟨afterRead n s.pieces, nil_notMem_afterRead s.nonempty, s.failure⟩)

/-- A read of a piece takes its beginning. -/
theorem read_of_cons {s : Source α ε} {p : List α} {ps : List (List α)} (h : s.pieces = p :: ps)
    {n : ℕ} (hn : 0 < n) : ∃ a got t, s.read n = .ok (a :: got, t) ∧ got.length < n ∧
      s.symbols = a :: got ++ t.symbols ∧ t.failure = s.failure := by
  have hp : p ≠ [] := fun hnil => s.nonempty (by rw [h, hnil]; exact List.mem_cons_self)
  obtain ⟨a, rest, rfl⟩ := List.exists_cons_of_ne_nil hp
  obtain ⟨m, rfl⟩ : ∃ m, n = m + 1 := ⟨n - 1, by omega⟩
  refine ⟨a, rest.take m, ⟨afterRead (m + 1) s.pieces, nil_notMem_afterRead s.nonempty, s.failure⟩,
    ?_, ?_, ?_, rfl⟩
  · simp [read, h]
  · have hlen : (rest.take m).length ≤ m := List.length_take_le m rest
    omega
  · simp only [symbols, h, afterRead]
    split_ifs with hlen
    · have htake : rest.take m = rest := List.take_of_length_le (by simpa using hlen)
      rw [htake, List.flatten_cons]
    · have hrest : rest.take m ++ (rest.drop m ++ ps.flatten) = rest ++ ps.flatten := by
        rw [← List.append_assoc, List.take_append_drop]
      simp [hrest]

/-- Read until there are `want` symbols, at most `chunk` at a time. -/
def fill (chunk want : ℕ) (s : Source α ε) : Except (Shortage ε) (List α × Source α ε) :=
  if want = 0 then .ok ([], s)
  else
    match s.read (min want chunk) with
    | .error e => .error (.failed e)
    | .ok ([], _) => .error .endOfStream
    | .ok (a :: got, t) =>
      (fill chunk (want - (got.length + 1)) t).map fun r => (a :: got ++ r.1, r.2)
termination_by want

/-- How a source that is too short ends. -/
def shortage (s : Source α ε) : Shortage ε :=
  match s.failure with
  | some e => .failed e
  | none => .endOfStream

theorem shortage_congr {s t : Source α ε} (h : t.failure = s.failure) :
    t.shortage = s.shortage := by
  rw [shortage, shortage, h]

@[simp] theorem fill_zero (chunk : ℕ) (s : Source α ε) : s.fill chunk 0 = .ok ([], s) := by
  rw [fill, if_pos rfl]

/-- A source without pieces has nothing to fill with. -/
theorem fill_of_nil {s : Source α ε} (h : s.pieces = []) {chunk want : ℕ} (hwant : want ≠ 0) :
    s.fill chunk want = .error s.shortage := by
  rw [fill, if_neg hwant, read, if_pos h, shortage]
  cases s.failure with
  | none => rfl
  | some e => rfl

variable {chunk : ℕ} (hchunk : 0 < chunk)

include hchunk

/-- **Enough symbols.** However they arrive, the first ones are read and the others left. -/
theorem fill_of_le {want : ℕ} {s : Source α ε} (h : want ≤ s.symbols.length) :
    ∃ t, s.fill chunk want = .ok (s.symbols.take want, t) ∧ t.symbols = s.symbols.drop want ∧
      t.failure = s.failure := by
  induction want using Nat.strongRecOn generalizing s with
  | ind want ih =>
    rcases Nat.eq_zero_or_pos want with rfl | hwant
    · exact ⟨s, by simp, by simp, rfl⟩
    · cases hpieces : s.pieces with
      | nil =>
        have hnone : s.symbols.length = 0 := by rw [symbols, hpieces]; rfl
        omega
      | cons p ps =>
        obtain ⟨a, got, t, hread, hgot, hsymbols, hfailure⟩ :=
          read_of_cons hpieces (Nat.lt_min.mpr ⟨hwant, hchunk⟩)
        have hlen : s.symbols.length = got.length + 1 + t.symbols.length := by
          rw [hsymbols]
          simp
          omega
        have hmin : min want chunk ≤ want := Nat.min_le_left want chunk
        obtain ⟨t', hfill, hrest, hfailure'⟩ :=
          ih (want - (got.length + 1)) (by omega) (s := t) (by omega)
        refine ⟨t', ?_, ?_, hfailure'.trans hfailure⟩
        · have hsplit : want = (a :: got).length + (want - (got.length + 1)) := by
            rw [List.length_cons]
            omega
          rw [fill, if_neg (by omega), hread]
          simp only [hfill, Except.map]
          rw [hsymbols]
          conv_rhs => rw [hsplit]
          rw [List.take_length_add_append]
        · have hsplit : want = (a :: got).length + (want - (got.length + 1)) := by
            rw [List.length_cons]
            omega
          rw [hrest, hsymbols]
          conv_rhs => rw [hsplit]
          rw [List.drop_length_add_append]

/-- **Too few symbols.** However they arrive, the reader fails. -/
theorem fill_of_lt {want : ℕ} {s : Source α ε} (h : s.symbols.length < want) :
    s.fill chunk want = .error s.shortage := by
  induction want using Nat.strongRecOn generalizing s with
  | ind want ih =>
    cases hpieces : s.pieces with
    | nil => exact fill_of_nil hpieces (by omega)
    | cons p ps =>
      obtain ⟨a, got, t, hread, hgot, hsymbols, hfailure⟩ :=
        read_of_cons hpieces (Nat.lt_min.mpr ⟨(by omega : 0 < want), hchunk⟩)
      have hlen : s.symbols.length = got.length + 1 + t.symbols.length := by
        rw [hsymbols]
        simp
        omega
      have hrest := ih (want - (got.length + 1)) (by omega) (s := t) (by omega)
      rw [fill, if_neg (by omega), hread]
      simp only [hrest, Except.map]
      rw [shortage_congr hfailure]

/-- What was read and what is left make up the source. -/
theorem symbols_of_fill {want : ℕ} {s t : Source α ε} {got : List α}
    (h : s.fill chunk want = .ok (got, t)) :
    got.length = want ∧ s.symbols = got ++ t.symbols ∧ t.failure = s.failure := by
  by_cases hwant : want ≤ s.symbols.length
  · obtain ⟨t', hfill, hrest, hfailure⟩ := fill_of_le hchunk hwant
    obtain ⟨rfl, rfl⟩ := Prod.mk.inj (Except.ok.inj (hfill.symm.trans h))
    exact ⟨List.length_take_of_le hwant, by rw [hrest, List.take_append_drop], hfailure⟩
  · rw [fill_of_lt hchunk (Nat.lt_of_not_le hwant)] at h
    cases h

end Source
