import Mathlib.Data.List.Basic
import Mathlib.Tactic.SplitIfs

/-!
# Searching for a regular expression

Regular expressions over classes of letters, with the words they match (`Matches`) and a matcher
by derivatives. A search looks for a match anywhere in a text; it may ask that the match stand at
the start of the text or behind a letter of some class, and at its end or in front of one, as
`(?:^|[…])` and `(?:$|[…])` do.

* `matches_deriv`: the derivative by a letter matches what is left behind it.
* `finds_iff`: a search finds exactly the matches.
* `finds_pad`: letters that no match begins or ends with can be put around a text.
* `finds_append`: with such letters between them, two texts hold a match of their own, or one goes
  on from the first into the second.
-/

/-- Regular expressions. -/
inductive Regex (α : Type)
  | empty
  /-- `[…]` -/
  | one (p : α → Bool)
  | seq (r s : Regex α)
  /-- `r|s` -/
  | alt (r s : Regex α)
  /-- `r*` -/
  | many (r : Regex α)

namespace Regex

variable {α : Type} {r s : Regex α} {p : α → Bool} {c : α} {w : List α}

/-- The words of an expression. -/
inductive Matches : Regex α → List α → Prop
  | empty : Matches empty []
  | one {p : α → Bool} {c : α} (h : p c = true) : Matches (one p) [c]
  | seq {r s : Regex α} {u v : List α} (hu : Matches r u) (hv : Matches s v) :
    Matches (seq r s) (u ++ v)
  | left {r s : Regex α} {w : List α} (h : Matches r w) : Matches (alt r s) w
  | right {r s : Regex α} {w : List α} (h : Matches s w) : Matches (alt r s) w
  | stop {r : Regex α} : Matches (many r) []
  | more {r : Regex α} {u v : List α} (hu : Matches r u) (hv : Matches (many r) v) :
    Matches (many r) (u ++ v)

/-- The empty word matches. -/
def nullable : Regex α → Bool
  | empty => true
  | one _ => false
  | seq r s => r.nullable && s.nullable
  | alt r s => r.nullable || s.nullable
  | many _ => true

/-- Nothing matches. -/
def never : Regex α := one fun _ => false

/-- What is left of an expression behind a letter. -/
def deriv (c : α) : Regex α → Regex α
  | empty => never
  | one p => if p c then empty else never
  | seq r s => if r.nullable then alt (seq (r.deriv c) s) (s.deriv c) else seq (r.deriv c) s
  | alt r s => alt (r.deriv c) (s.deriv c)
  | many r => seq (r.deriv c) (many r)

theorem not_matches_never : ¬ Matches never w := by
  rintro ⟨⟩
  contradiction

theorem nullable_iff : r.nullable = true ↔ Matches r [] := by
  induction r with
  | empty => exact iff_of_true rfl .empty
  | one p => exact iff_of_false Bool.false_ne_true nofun
  | seq r s ihr ihs =>
    rw [nullable, Bool.and_eq_true, ihr, ihs]
    constructor
    · rintro ⟨hr, hs⟩
      exact .seq hr hs
    · intro h
      generalize hw : ([] : List α) = w at h
      cases h with
      | seq hu hv =>
        obtain ⟨rfl, rfl⟩ := List.append_eq_nil_iff.mp hw.symm
        exact ⟨hu, hv⟩
  | alt r s ihr ihs =>
    rw [nullable, Bool.or_eq_true, ihr, ihs]
    constructor
    · rintro (h | h)
      · exact .left h
      · exact .right h
    · intro h
      cases h with
      | left h => exact .inl h
      | right h => exact .inr h
  | many r => exact iff_of_true rfl .stop

theorem matches_one : Matches (one p) w ↔ ∃ c, p c = true ∧ w = [c] := by
  constructor
  · rintro ⟨⟩
    exact ⟨_, ‹_›, rfl⟩
  · rintro ⟨c, hc, rfl⟩
    exact .one hc

theorem matches_seq : Matches (seq r s) w ↔ ∃ u v, w = u ++ v ∧ Matches r u ∧ Matches s v := by
  constructor
  · rintro ⟨⟩
    exact ⟨_, _, rfl, ‹_›, ‹_›⟩
  · rintro ⟨u, v, rfl, hu, hv⟩
    exact .seq hu hv

/-- Where a match of two expressions in turn goes on from one text into another: the first of them
ends in the first text, or goes on into the second. -/
theorem matches_seq_append {u v : List α} : Matches (seq r s) (u ++ v) ↔
    (∃ u₁ u₂, u = u₁ ++ u₂ ∧ Matches r u₁ ∧ Matches s (u₂ ++ v)) ∨
      ∃ v₁ v₂, v = v₁ ++ v₂ ∧ v₁ ≠ [] ∧ Matches r (u ++ v₁) ∧ Matches s v₂ := by
  rw [matches_seq]
  constructor
  · rintro ⟨m, n, heq, hm, hn⟩
    rcases List.append_eq_append_iff.mp heq with ⟨d, rfl, rfl⟩ | ⟨d, rfl, rfl⟩
    · cases d with
      | nil =>
        rw [List.append_nil] at hm
        exact .inl ⟨u, [], (List.append_nil u).symm, hm, hn⟩
      | cons e d => exact .inr ⟨e :: d, n, rfl, List.cons_ne_nil _ _, hm, hn⟩
    · exact .inl ⟨m, d, rfl, hm, hn⟩
  · rintro (⟨u₁, u₂, rfl, hr, hs⟩ | ⟨v₁, v₂, rfl, -, hr, hs⟩)
    · exact ⟨u₁, u₂ ++ v, List.append_assoc _ _ _, hr, hs⟩
    · exact ⟨u ++ v₁, v₂, (List.append_assoc _ _ _).symm, hr, hs⟩

theorem matches_alt : Matches (alt r s) w ↔ Matches r w ∨ Matches s w := by
  constructor
  · rintro (_ | _ | _)
    · exact .inl ‹_›
    · exact .inr ‹_›
  · rintro (h | h)
    · exact .left h
    · exact .right h

/-- A word of `r*` that is not empty begins with a word of `r` that is not. -/
theorem matches_many_cons : Matches (many r) (c :: w) ↔
    ∃ u v, w = u ++ v ∧ Matches r (c :: u) ∧ Matches (many r) v := by
  constructor
  · intro h
    generalize hr : many r = m at h
    generalize hw : c :: w = x at h
    induction h with
    | @more r' u v hu hv _ ih =>
      obtain rfl := many.inj hr
      cases u with
      | nil => exact ih rfl hw
      | cons d u =>
        obtain ⟨rfl, rfl⟩ := List.cons.inj hw
        exact ⟨u, v, rfl, hu, hv⟩
    | stop => cases hw
    | _ => cases hr
  · rintro ⟨u, v, rfl, hu, hv⟩
    exact .more hu hv

/-- The derivative by a letter matches what is left behind it. -/
theorem matches_deriv : Matches (r.deriv c) w ↔ Matches r (c :: w) := by
  induction r generalizing w with
  | empty => exact iff_of_false not_matches_never nofun
  | one p =>
    rw [deriv, matches_one]
    split_ifs with hc
    · constructor
      · rintro ⟨⟩
        exact ⟨c, hc, rfl⟩
      · rintro ⟨d, -, heq⟩
        obtain ⟨rfl, rfl⟩ := List.cons.inj heq
        exact .empty
    · refine iff_of_false not_matches_never ?_
      rintro ⟨d, hd, heq⟩
      obtain ⟨rfl, -⟩ := List.cons.inj heq
      exact hc hd
  | seq r s ihr ihs =>
    have hseq : Matches (seq (r.deriv c) s) w ↔
        ∃ u v, w = u ++ v ∧ Matches r (c :: u) ∧ Matches s v := by
      simp only [matches_seq, ihr]
    have hsplit : Matches (seq r s) (c :: w) ↔
        Matches (seq (r.deriv c) s) w ∨ Matches r [] ∧ Matches s (c :: w) := by
      rw [hseq, matches_seq]
      constructor
      · rintro ⟨u, v, heq, hu, hv⟩
        cases u with
        | nil => exact .inr ⟨hu, by rwa [heq]⟩
        | cons d u =>
          obtain ⟨rfl, rfl⟩ := List.cons.inj heq
          exact .inl ⟨u, v, rfl, hu, hv⟩
      · rintro (⟨u, v, rfl, hu, hv⟩ | ⟨hr, hs⟩)
        · exact ⟨c :: u, v, rfl, hu, hv⟩
        · exact ⟨[], c :: w, rfl, hr, hs⟩
    rw [hsplit, deriv, ← nullable_iff]
    split_ifs with hnull
    · rw [matches_alt, ihs, and_iff_right hnull]
    · rw [or_iff_left fun h => hnull h.1]
  | alt r s ihr ihs => rw [deriv, matches_alt, matches_alt, ihr, ihs]
  | many r ih =>
    rw [deriv, matches_seq, matches_many_cons]
    simp only [ih]

/-! ### What matches begin and end with -/

/-- Every match that is not empty begins with `P`. -/
def Firsts (P : α → Prop) : Regex α → Prop
  | empty => True
  | one p => ∀ c, p c = true → P c
  | seq r s => r.Firsts P ∧ (r.nullable = true → s.Firsts P)
  | alt r s => r.Firsts P ∧ s.Firsts P
  | many r => r.Firsts P

/-- Every match that is not empty ends with `P`. -/
def Lasts (P : α → Prop) : Regex α → Prop
  | empty => True
  | one p => ∀ c, p c = true → P c
  | seq r s => s.Lasts P ∧ (s.nullable = true → r.Lasts P)
  | alt r s => r.Lasts P ∧ s.Lasts P
  | many r => r.Lasts P

theorem Firsts.mono {P Q : α → Prop} (h : ∀ c, P c → Q c) (hr : r.Firsts P) : r.Firsts Q := by
  induction r with
  | empty => trivial
  | one p => exact fun c hc => h c (hr c hc)
  | seq r s ihr ihs => exact ⟨ihr hr.1, fun hnull => ihs (hr.2 hnull)⟩
  | alt r s ihr ihs => exact ⟨ihr hr.1, ihs hr.2⟩
  | many r ih => exact ih hr

theorem Matches.first {P : α → Prop} (h : Matches r w) (hr : r.Firsts P) :
    ∀ c ∈ w.head?, P c := by
  induction h with
  | empty => exact nofun
  | one h =>
    rintro _ ⟨⟩
    exact hr _ h
  | @seq r s u v hu hv ihu ihv =>
    cases u with
    | nil => exact ihv (hr.2 (nullable_iff.mpr hu))
    | cons d u => exact ihu hr.1
  | left _ ih => exact ih hr.1
  | right _ ih => exact ih hr.2
  | stop => exact nofun
  | @more r u v hu hv ihu ihv =>
    cases u with
    | nil => exact ihv hr
    | cons d u => exact ihu hr

theorem Matches.last {P : α → Prop} (h : Matches r w) (hr : r.Lasts P) :
    ∀ c ∈ w.getLast?, P c := by
  induction h with
  | empty => exact nofun
  | one h =>
    rintro _ ⟨⟩
    exact hr _ h
  | @seq r s u v hu hv ihu ihv =>
    by_cases hnil : v = []
    · subst hnil
      rw [List.append_nil]
      exact ihu (hr.2 (nullable_iff.mpr hv))
    · rw [List.getLast?_append_of_ne_nil u hnil]
      exact ihv hr.1
  | left _ ih => exact ih hr.1
  | right _ ih => exact ih hr.2
  | stop => exact nofun
  | @more r u v hu hv ihu ihv =>
    by_cases hnil : v = []
    · subst hnil
      rw [List.append_nil]
      exact ihu hr
    · rw [List.getLast?_append_of_ne_nil u hnil]
      exact ihv hr

/-- Every letter of a match is of `P`. -/
def Within (P : α → Prop) : Regex α → Prop
  | empty => True
  | one p => ∀ c, p c = true → P c
  | seq r s => r.Within P ∧ s.Within P
  | alt r s => r.Within P ∧ s.Within P
  | many r => r.Within P

theorem Matches.within {P : α → Prop} (h : Matches r w) (hr : r.Within P) : ∀ c ∈ w, P c := by
  induction h with
  | empty => exact nofun
  | one h => exact List.forall_mem_singleton.mpr (hr _ h)
  | seq hu hv ihu ihv => exact List.forall_mem_append.mpr ⟨ihu hr.1, ihv hr.2⟩
  | left _ ih => exact ih hr.1
  | right _ ih => exact ih hr.2
  | stop => exact nofun
  | more hu hv ihu ihv => exact List.forall_mem_append.mpr ⟨ihu hr, ihv hr⟩

/-! ### Searching -/

/-- An expression and what may stand around a match. -/
structure Search (α : Type) where
  /-- `(?:^|[…])` in front of it. -/
  before : Option (α → Bool)
  body : Regex α
  /-- `(?:$|[…])` behind it. -/
  after : Option (α → Bool)

/-- May a match stand next to this letter, or to the end of the text? -/
def allows : Option (α → Bool) → Option α → Bool
  | some p, some c => p c
  | _, _ => true

/-- Does a match stand at the front of a text? -/
def opensWith (after : Option (α → Bool)) : Regex α → List α → Bool
  | r, [] => r.nullable
  | r, c :: w => (r.nullable && allows after (some c)) || opensWith after (r.deriv c) w

/-- Does a match stand in a text behind a letter? -/
def Search.findsFrom (q : Search α) : Option α → List α → Bool
  | prev, [] => allows q.before prev && q.body.nullable
  | prev, c :: w =>
    (allows q.before prev && opensWith q.after q.body (c :: w)) || q.findsFrom (some c) w

/-- Does a match stand in a text? -/
def Search.finds (q : Search α) (w : List α) : Bool := q.findsFrom none w

theorem opensWith_iff {after : Option (α → Bool)} : opensWith after r w = true ↔
    ∃ m b, w = m ++ b ∧ Matches r m ∧ allows after b.head? = true := by
  induction w generalizing r with
  | nil =>
    rw [opensWith, nullable_iff]
    constructor
    · intro h
      exact ⟨[], [], rfl, h, by cases after <;> rfl⟩
    · rintro ⟨m, b, heq, hm, -⟩
      obtain ⟨rfl, rfl⟩ := List.append_eq_nil_iff.mp heq.symm
      exact hm
  | cons c w ih =>
    rw [opensWith, Bool.or_eq_true, Bool.and_eq_true, nullable_iff, ih]
    simp only [matches_deriv]
    constructor
    · rintro (⟨hr, hafter⟩ | ⟨m, b, rfl, hm, hafter⟩)
      · exact ⟨[], c :: w, rfl, hr, hafter⟩
      · exact ⟨c :: m, b, rfl, hm, hafter⟩
    · rintro ⟨m, b, heq, hm, hafter⟩
      cases m with
      | nil => exact .inl ⟨hm, by rw [List.nil_append] at heq; rwa [← heq] at hafter⟩
      | cons d m =>
        obtain ⟨rfl, rfl⟩ := List.cons.inj heq
        exact .inr ⟨m, b, rfl, hm, hafter⟩

/-- A letter that no match begins with is passed over. -/
theorem Search.findsFrom_cons {q : Search α} {P : α → Prop} (hnull : q.body.nullable = false)
    (hfirst : q.body.Firsts P) (hc : ¬ P c) (prev : Option α) :
    q.findsFrom prev (c :: w) = q.findsFrom (some c) w := by
  have hopens : opensWith q.after q.body (c :: w) = false := by
    rw [Bool.eq_false_iff, ne_eq, opensWith_iff]
    rintro ⟨m, b, heq, hm, -⟩
    cases m with
    | nil => rw [nullable_iff.mpr hm] at hnull; cases hnull
    | cons d m =>
      obtain ⟨rfl, -⟩ := List.cons.inj heq
      exact hc (hm.first hfirst c rfl)
  rw [findsFrom, hopens, Bool.and_false, Bool.false_or]

/-- A search finds exactly the matches. -/
theorem Search.findsFrom_iff {q : Search α} {prev : Option α} : q.findsFrom prev w = true ↔
    ∃ a m b, w = a ++ (m ++ b) ∧ allows q.before (a.getLast?.or prev) = true ∧
      Matches q.body m ∧ allows q.after b.head? = true := by
  induction w generalizing prev with
  | nil =>
    rw [findsFrom, Bool.and_eq_true, nullable_iff]
    constructor
    · rintro ⟨hbefore, hm⟩
      exact ⟨[], [], [], rfl, hbefore, hm, by cases q.after <;> rfl⟩
    · rintro ⟨a, m, b, heq, hbefore, hm, -⟩
      obtain ⟨rfl, hmb⟩ := List.append_eq_nil_iff.mp heq.symm
      obtain ⟨rfl, rfl⟩ := List.append_eq_nil_iff.mp hmb
      exact ⟨hbefore, hm⟩
  | cons c w ih =>
    rw [findsFrom, Bool.or_eq_true, Bool.and_eq_true, opensWith_iff, ih]
    constructor
    · rintro (⟨hbefore, m, b, heq, hm, hafter⟩ | ⟨a, m, b, rfl, hbefore, hm, hafter⟩)
      · exact ⟨[], m, b, heq, hbefore, hm, hafter⟩
      · refine ⟨c :: a, m, b, rfl, ?_, hm, hafter⟩
        cases a with
        | nil => exact hbefore
        | cons d a => rwa [List.getLast?_cons_cons]
    · rintro ⟨a, m, b, heq, hbefore, hm, hafter⟩
      cases a with
      | nil => exact .inl ⟨hbefore, m, b, heq, hm, hafter⟩
      | cons d a =>
        obtain ⟨rfl, rfl⟩ := List.cons.inj heq
        refine .inr ⟨a, m, b, rfl, ?_, hm, hafter⟩
        cases a with
        | nil => exact hbefore
        | cons e a => rwa [List.getLast?_cons_cons] at hbefore

theorem finds_iff {q : Search α} : q.finds w = true ↔
    ∃ a m b, w = a ++ (m ++ b) ∧ allows q.before a.getLast? = true ∧ Matches q.body m ∧
      allows q.after b.head? = true := by
  simp only [Search.finds, Search.findsFrom_iff, Option.or_none]

/-! ### Padding -/

/-- Matches are not empty and neither begin nor end with `blank` letters, and such letters may
stand around them. -/
structure Search.Solid (blank : α → Prop) (q : Search α) : Prop where
  nonempty : q.body.nullable = false
  first : q.body.Firsts fun c => ¬ blank c
  last : q.body.Lasts fun c => ¬ blank c
  before (c : α) (h : blank c) : allows q.before (some c) = true
  after (c : α) (h : blank c) : allows q.after (some c) = true

section Padding

variable {q : Search α} {blank : α → Prop} {pad : List α}

theorem allows_none (o : Option (α → Bool)) : allows o none = true := by
  cases o <;> rfl

theorem Search.Solid.ne_nil {m : List α} (hq : q.Solid blank) (hm : Matches q.body m) :
    m ≠ [] := by
  rintro rfl
  have hnonempty := hq.nonempty
  rw [nullable_iff.mpr hm] at hnonempty
  cases hnonempty

/-- Only whether a match may stand there matters about the letter before. -/
theorem Search.findsFrom_congr {prev prev' : Option α}
    (h : allows q.before prev = allows q.before prev') :
    q.findsFrom prev w = q.findsFrom prev' w := by
  cases w <;> rw [findsFrom, findsFrom, h]

/-- Blank letters in front of a text are passed over. -/
theorem Search.Solid.finds_left (hq : q.Solid blank) (hpad : ∀ c ∈ pad, blank c) :
    q.finds (pad ++ w) = q.finds w := by
  induction pad with
  | nil => rfl
  | cons c pad ih =>
    obtain ⟨hc, hpad⟩ := List.forall_mem_cons.mp hpad
    have hpass : q.findsFrom none (c :: (pad ++ w)) = q.findsFrom (some c) (pad ++ w) :=
      q.findsFrom_cons hq.nonempty hq.first (not_not_intro hc) none
    have hsame : q.findsFrom (some c) (pad ++ w) = q.findsFrom none (pad ++ w) :=
      Search.findsFrom_congr (by rw [hq.before c hc, allows_none])
    rw [List.cons_append, Search.finds, hpass, hsame]
    exact ih hpad

/-- Blank letters behind a text belong to no match. -/
theorem Search.Solid.finds_right (hq : q.Solid blank) (hpad : ∀ c ∈ pad, blank c) :
    q.finds (w ++ pad) = q.finds w := by
  rw [Bool.eq_iff_iff, finds_iff, finds_iff]
  constructor
  · rintro ⟨a, m, b, heq, hbefore, hm, hafter⟩
    have hne := hq.ne_nil hm
    rw [← List.append_assoc] at heq
    rcases List.append_eq_append_iff.mp heq with ⟨d, ham, hd⟩ | ⟨d, hw, hb⟩
    · -- the match would end within the padding
      by_cases hnil : d = []
      · subst hnil
        rw [List.append_nil] at ham
        refine ⟨a, m, [], by rw [List.append_nil, ham], hbefore, hm, ?_⟩
        rw [List.head?_nil, allows_none]
      · obtain ⟨c, hc⟩ := Option.isSome_iff_exists.mp
          (Option.isSome_iff_ne_none.mpr (List.getLast?_eq_none_iff.not.mpr hnil))
        have hlast : m.getLast? = some c := by
          have hsame := congrArg List.getLast? ham
          rwa [List.getLast?_append_of_ne_nil _ hne, List.getLast?_append_of_ne_nil _ hnil,
            hc] at hsame
        have hblank := hpad c (hd ▸ List.mem_append_left b (List.mem_of_getLast? hc))
        exact absurd hblank (hm.last hq.last c hlast)
    · refine ⟨a, m, d, by rw [hw, List.append_assoc], hbefore, hm, ?_⟩
      cases d with
      | nil => rw [List.head?_nil, allows_none]
      | cons c d =>
        rw [hb] at hafter
        exact hafter
  · rintro ⟨a, m, b, rfl, hbefore, hm, hafter⟩
    refine ⟨a, m, b ++ pad, by simp, hbefore, hm, ?_⟩
    cases b with
    | nil =>
      cases pad with
      | nil => rw [List.append_nil, List.head?_nil, allows_none]
      | cons c pad => exact hq.after c (hpad c List.mem_cons_self)
    | cons c b => exact hafter

/-- **Blank letters can be put around a text.** -/
theorem Search.Solid.finds_pad {back : List α} (hq : q.Solid blank) (hpad : ∀ c ∈ pad, blank c)
    (hback : ∀ c ∈ back, blank c) : q.finds (pad ++ (w ++ back)) = q.finds w := by
  rw [hq.finds_left hpad, hq.finds_right hback]

/-- So can a letter in front of a blank one, if no match begins with the two. -/
theorem Search.Solid.finds_cons {c d : α} (hq : q.Solid blank) (hd : blank d)
    (hc : ∀ m, Matches q.body (c :: m) → m ≠ [] ∧ m.head? ≠ some d) :
    q.finds (c :: d :: w) = q.finds w := by
  have hopens : opensWith q.after q.body (c :: d :: w) = false := by
    rw [Bool.eq_false_iff, ne_eq, opensWith_iff]
    rintro ⟨m, b, heq, hm, -⟩
    cases m with
    | nil => exact hq.ne_nil hm rfl
    | cons e m =>
      obtain ⟨rfl, hrest⟩ := List.cons.inj heq
      cases m with
      | nil => exact (hc [] hm).1 rfl
      | cons f m =>
        obtain ⟨rfl, -⟩ := List.cons.inj hrest
        exact (hc _ hm).2 rfl
  have hpass : q.findsFrom (some c) (d :: w) = q.findsFrom none (d :: w) := by
    rw [q.findsFrom_cons hq.nonempty hq.first (not_not_intro hd),
      q.findsFrom_cons hq.nonempty hq.first (not_not_intro hd)]
  have hpad : q.finds ([d] ++ w) = q.finds w := hq.finds_left (by simpa using hd)
  rw [Search.finds, Search.findsFrom, hopens, Bool.and_false, Bool.false_or, hpass]
  exact hpad

/-- A match does not begin with blank letters. -/
theorem Search.Solid.not_pad_append (hq : q.Solid blank) (hpad : ∀ c ∈ pad, blank c)
    (hne : pad ≠ []) {v : List α} : ¬ Matches q.body (pad ++ v) := by
  intro hm
  cases pad with
  | nil => exact hne rfl
  | cons c pad => exact hm.first hq.first c rfl (hpad c List.mem_cons_self)

/-- A match does not end with blank letters. -/
theorem Search.Solid.not_append_pad (hq : q.Solid blank) (hpad : ∀ c ∈ pad, blank c)
    (hne : pad ≠ []) {v : List α} : ¬ Matches q.body (v ++ pad) := by
  intro hm
  have hlast := List.getLast?_eq_some_getLast hne
  exact hm.last hq.last _ (by rw [List.getLast?_append_of_ne_nil v hne, hlast]; rfl)
    (hpad _ (List.getLast_mem hne))

/-- Where a match ends that goes on behind a text: not among the blank letters there. -/
theorem Search.Solid.exists_behind (hq : q.Solid blank) (hpad : ∀ c ∈ pad, blank c) (hne : pad ≠ [])
    {a m b u v d : List α} (hm : Matches q.body m) (ham : a ++ m = u ++ d) (hd : d ≠ [])
    (heq : pad ++ v = d ++ b) : ∃ n, v = n ++ b ∧
      ((∃ l, u = a ++ l ∧ m = l ++ (pad ++ n) ∧ l ≠ [] ∧ n ≠ []) ∨
        ∃ g, a = u ++ (pad ++ g) ∧ n = g ++ m) := by
  rcases List.append_eq_append_iff.mp heq with ⟨e, rfl, rfl⟩ | ⟨e, rfl, rfl⟩
  · refine ⟨e, rfl, ?_⟩
    rcases List.append_eq_append_iff.mp ham with ⟨l, rfl, rfl⟩ | ⟨f, rfl, hf⟩
    · refine .inl ⟨l, rfl, rfl, ?_, ?_⟩
      · rintro rfl
        exact hq.not_pad_append hpad hne hm
      · rintro rfl
        rw [List.append_nil] at hm
        exact hq.not_append_pad hpad hne hm
    · -- the match begins behind the first text
      rcases List.append_eq_append_iff.mp hf with ⟨g, rfl, rfl⟩ | ⟨g, rfl, rfl⟩
      · exact .inr ⟨g, rfl, rfl⟩
      · have hg : g = [] := by
          by_contra hg
          exact hq.not_pad_append (fun c hc => hpad c (List.mem_append_right f hc)) hg hm
        subst hg
        exact .inr ⟨[], by simp, rfl⟩
  · have hblank : ∀ c ∈ d, blank c := fun c hc => hpad c (List.mem_append_left e hc)
    rcases List.append_eq_append_iff.mp ham with ⟨l, -, rfl⟩ | ⟨f, -, rfl⟩
    · exact absurd hm (hq.not_append_pad hblank hd)
    · have hin : ∀ c ∈ m, blank c := fun c hc => hblank c (List.mem_append_right f hc)
      exact absurd hm (hq.not_append_pad hin (hq.ne_nil hm) (v := []))

/-- **Two texts with blank letters between them**: a match stands in one of them, or goes on from
the first into the second. -/
theorem Search.Solid.finds_append (hq : q.Solid blank) (hpad : ∀ c ∈ pad, blank c)
    (hne : pad ≠ []) {u v : List α} : q.finds (u ++ (pad ++ v)) = true ↔
      q.finds u = true ∨ q.finds v = true ∨ ∃ a m n b, u = a ++ m ∧ v = n ++ b ∧ m ≠ [] ∧ n ≠ [] ∧
        allows q.before a.getLast? = true ∧ Matches q.body (m ++ (pad ++ n)) ∧
          allows q.after b.head? = true := by
  simp only [finds_iff]
  constructor
  · rintro ⟨a, m, b, heq, hbefore, hm, hafter⟩
    rw [← List.append_assoc a] at heq
    -- a match that ends in the first text
    have hleft (d : List α) (hu : u = a ++ m ++ d) (hb : b = d ++ (pad ++ v)) :
        ∃ a m b, u = a ++ (m ++ b) ∧ allows q.before a.getLast? = true ∧ Matches q.body m ∧
          allows q.after b.head? = true := by
      refine ⟨a, m, d, by rw [hu, List.append_assoc], hbefore, hm, ?_⟩
      cases d with
      | nil => exact allows_none _
      | cons c d =>
        rw [hb] at hafter
        exact hafter
    rcases List.append_eq_append_iff.mp heq with ⟨d, ham, hd⟩ | ⟨d, hu, hb⟩
    · by_cases hnil : d = []
      · subst hnil
        exact .inl (hleft [] (by rw [ham, List.append_nil, List.append_nil]) hd.symm)
      · obtain ⟨n, rfl, ⟨l, rfl, rfl, hl, hn⟩ | ⟨g, rfl, rfl⟩⟩ :=
          hq.exists_behind hpad hne hm ham hnil hd
        · exact .inr (.inr ⟨a, l, n, b, rfl, rfl, hl, hn, hbefore, hm, hafter⟩)
        · refine .inr (.inl ⟨g, m, b, List.append_assoc _ _ _, ?_, hm, hafter⟩)
          by_cases hg : g = []
          · subst hg
            exact allows_none _
          · rwa [← List.append_assoc, List.getLast?_append_of_ne_nil _ hg] at hbefore
    · exact .inl (hleft d hu hb)
  · rintro (⟨a, m, b, rfl, hbefore, hm, hafter⟩ | ⟨a, m, b, rfl, hbefore, hm, hafter⟩ |
      ⟨a, m, n, b, rfl, rfl, -, -, hbefore, hm, hafter⟩)
    · refine ⟨a, m, b ++ (pad ++ v), by simp, hbefore, hm, ?_⟩
      cases b with
      | nil =>
        cases pad with
        | nil => exact absurd rfl hne
        | cons c pad => exact hq.after c (hpad c List.mem_cons_self)
      | cons c b => exact hafter
    · refine ⟨u ++ (pad ++ a), m, b, by simp, ?_, hm, hafter⟩
      by_cases hnil : a = []
      · rw [hnil, List.append_nil, List.getLast?_append_of_ne_nil u hne,
          List.getLast?_eq_some_getLast hne]
        exact hq.before _ (hpad _ (List.getLast_mem hne))
      · rwa [← List.append_assoc, List.getLast?_append_of_ne_nil _ hnil]
    · exact ⟨a, m ++ (pad ++ n), b, by simp, hbefore, hm, hafter⟩

end Padding

end Regex
