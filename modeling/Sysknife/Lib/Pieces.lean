import Mathlib.Data.List.Basic

/-!
# Texts with pieces replaced

A text is taken apart into what is kept and what is cut out; what is shown has a marker for each
piece cut out. An occurrence of a text is told by what stands before it, so that equal texts at two
places are two occurrences.

* `Parts.Keeps.source`, `Parts.Keeps.shown`: a kept occurrence is one of the text, and what is
  shown has it.
* `Parts.Keeps.not_drops`: an occurrence is not both kept and cut out.
* `Parts.Keeps.around`: what the text and what is shown have in common around a kept occurrence.
-/

namespace Pieces

/-- A text taken apart: each piece that is cut out stands after a text that is kept. -/
inductive Parts (α : Type)
  | rest (kept : List α)
  | cut (kept secret : List α) (more : Parts α)

namespace Parts

variable {α : Type} {m t a b : List α} {p : Parts α} {P : List α → List α → Prop}

def source : Parts α → List α
  | .rest kept => kept
  | .cut kept secret more => kept ++ (secret ++ more.source)

/-- The text with a marker in the place of each piece that is cut out. -/
def shown (m : List α) : Parts α → List α
  | .rest kept => kept
  | .cut kept _ more => kept ++ (m ++ more.shown m)

/-- The occurrence of `t` after `a` is kept, and stands after `b` in what is shown. -/
def Keeps (m t : List α) : Parts α → List α → List α → Prop
  | .rest kept, a, b => a = b ∧ ∃ d, kept = a ++ (t ++ d)
  | .cut kept secret more, a, b =>
    (a = b ∧ ∃ d, kept = a ++ (t ++ d)) ∨
      ∃ a' b', a = kept ++ (secret ++ a') ∧ b = kept ++ (m ++ b') ∧ more.Keeps m t a' b'

/-- The occurrence of `t` after `a` is cut out. -/
def Drops (t : List α) : Parts α → List α → Prop
  | .rest _, _ => False
  | .cut kept secret more, a =>
    (∃ c d, a = kept ++ c ∧ secret = c ++ (t ++ d)) ∨
      ∃ a', a = kept ++ (secret ++ a') ∧ more.Drops t a'

/-- All pieces that are cut out, and the texts after them, satisfy `P`. -/
def Each (P : List α → List α → Prop) : Parts α → Prop
  | .rest _ => True
  | .cut _ secret more => P secret more.source ∧ more.Each P

theorem Keeps.source (h : p.Keeps m t a b) : ∃ d, p.source = a ++ (t ++ d) := by
  induction p generalizing a b with
  | rest kept => exact h.2
  | cut kept secret more ih =>
    obtain ⟨-, d, rfl⟩ | ⟨a', b', rfl, rfl, hmore⟩ := h
    · exact ⟨d ++ (secret ++ more.source), by simp [Parts.source]⟩
    · obtain ⟨d, hd⟩ := ih hmore
      exact ⟨d, by simp [Parts.source, hd]⟩

/-- What is shown has the occurrences that are kept. -/
theorem Keeps.shown (h : p.Keeps m t a b) : ∃ d, p.shown m = b ++ (t ++ d) := by
  induction p generalizing a b with
  | rest kept =>
    obtain ⟨rfl, hd⟩ := h
    exact hd
  | cut kept secret more ih =>
    obtain ⟨rfl, d, rfl⟩ | ⟨a', b', rfl, rfl, hmore⟩ := h
    · exact ⟨d ++ (m ++ more.shown m), by simp [Parts.shown]⟩
    · obtain ⟨d, hd⟩ := ih hmore
      exact ⟨d, by simp [Parts.shown, hd]⟩

/-- An occurrence is not both kept and cut out. -/
theorem Keeps.not_drops (ht : t ≠ []) (h : p.Keeps m t a b) : ¬p.Drops t a := by
  have hpos := List.length_pos_iff.mpr ht
  induction p generalizing a b with
  | rest kept => exact id
  | cut kept secret more ih =>
    rintro (⟨c, d, hc, hsecret⟩ | ⟨c, hc, hdrops⟩)
    · have hlength := congrArg List.length hc
      obtain ⟨-, e, hkept⟩ | ⟨a', b', ha, -, -⟩ := h
      · have hkeptLength := congrArg List.length hkept
        simp only [List.length_append] at hlength hkeptLength
        omega
      · have haLength := congrArg List.length ha
        have hsecretLength := congrArg List.length hsecret
        simp only [List.length_append] at hlength haLength hsecretLength
        omega
    · obtain ⟨-, e, hkept⟩ | ⟨a', b', ha, -, hmore⟩ := h
      · have hlength := congrArg List.length hc
        have hkeptLength := congrArg List.length hkept
        simp only [List.length_append] at hlength hkeptLength
        omega
      · obtain rfl : a' = c :=
          List.append_cancel_left (List.append_cancel_left (ha.symm.trans hc))
        exact ih hmore hdrops

/-- With a text its end is cut out. -/
theorem Drops.append {u : List α} (h : p.Drops (u ++ t) a) : p.Drops t (a ++ u) := by
  induction p generalizing a with
  | rest kept => exact h
  | cut kept secret more ih =>
    obtain ⟨c, d, rfl, rfl⟩ | ⟨a', rfl, hmore⟩ := h
    · exact .inl ⟨c ++ u, d, by simp, by simp⟩
    · exact .inr ⟨a' ++ u, by simp, ih hmore⟩

/-- A text and what is shown of it end alike before a kept occurrence: with the beginning, or with
a piece and its marker. -/
def SameBefore (P : List α → List α → Prop) (m s s' : List α) : Prop :=
  (s = [] ∧ s' = []) ∨
    ∃ x y secret follow, s = x ++ secret ∧ s' = y ++ m ∧ follow ≠ [] ∧ P secret follow

/-- They go on alike after it: with the end, or with a piece and its marker. -/
def SameAfter (P : List α → List α → Prop) (m f f' : List α) : Prop :=
  (f = [] ∧ f' = []) ∨
    ∃ secret follow y, f = secret ++ follow ∧ f' = m ++ y ∧ P secret follow

/-- What a text and what is shown of it have in common around a kept occurrence. -/
theorem Keeps.around (ht : t ≠ []) (h : p.Keeps m t a b) (hp : p.Each P) :
    ∃ s s' k l f f', p.source = (s ++ k) ++ (t ++ (l ++ f)) ∧
      p.shown m = (s' ++ k) ++ (t ++ (l ++ f')) ∧ a = s ++ k ∧ b = s' ++ k ∧
      SameBefore P m s s' ∧ SameAfter P m f f' := by
  induction p generalizing a b with
  | rest kept =>
    obtain ⟨rfl, d, rfl⟩ := h
    refine ⟨[], [], a, d, [], [], ?_, ?_, rfl, rfl, .inl ⟨rfl, rfl⟩, .inl ⟨rfl, rfl⟩⟩
    · simp [Parts.source]
    · simp [Parts.shown]
  | cut kept secret more ih =>
    obtain ⟨hsecret, hmore⟩ := hp
    obtain ⟨rfl, d, rfl⟩ | ⟨a', b', rfl, rfl, hkeeps⟩ := h
    · refine ⟨[], [], a, d, secret ++ more.source, m ++ more.shown m, ?_, ?_, rfl, rfl,
        .inl ⟨rfl, rfl⟩, .inr ⟨secret, more.source, more.shown m, rfl, rfl, hsecret⟩⟩
      · simp [Parts.source]
      · simp [Parts.shown]
    · obtain ⟨s, s', k, l, f, f', hsource, hshown, rfl, rfl, hbefore, hafter⟩ := ih hkeeps hmore
      refine ⟨kept ++ (secret ++ s), kept ++ (m ++ s'), k, l, f, f', ?_, ?_, ?_, ?_, ?_, hafter⟩
      · simp [Parts.source, hsource]
      · simp [Parts.shown, hshown]
      · simp
      · simp
      · obtain ⟨rfl, rfl⟩ | ⟨x, y, piece, follow, rfl, rfl, hne, hpiece⟩ := hbefore
        · refine .inr ⟨kept, kept, secret, more.source, by simp, by simp, ?_, hsecret⟩
          rw [hsource]
          simp [ht]
        · exact .inr ⟨kept ++ (secret ++ x), kept ++ (m ++ y), piece, follow, by simp, by simp,
            hne, hpiece⟩

end Parts

end Pieces
