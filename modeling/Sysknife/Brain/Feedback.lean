import Sysknife.Brain.Fence

/-!
# The fence around an intent with a feedback behind it

A second request joins the intent and a feedback by an empty line, and the fence looks at the
joined text. Every shape of a credential that no line break can stand in is found in the joined
text if and only if it is found in one of its parts. The others may begin in the intent and end in
the feedback.

* `Announces`: a feedback begins with the word `The`, as the correction of a plan does.
* `LeavesOpen`: the intent ends within a credential that any such text completes, or that a
  quotation mark in it does.
* `containsSensitive_joined_iff`: **the joined text is sensitive if and only if a part of it is, or
  the intent leaves a credential open.**
-/

namespace Sysknife.Brain

open Slices Marks Regex

/-! ### What an intent may leave open -/

/-- Nothing but the end of the text. -/
def atEnd : Option (Char → Bool) := some fun _ => false

/-- The words of a credential in an assignment. -/
def secretWords : Regex Char :=
  oneOf ["password", "passwd", "secret", "api_key", "apikey", "access_key", "private_key", "token",
    "credential"]

/-- `(?:password|passwd|token|secret|credential)` -/
def namedSecrets : Regex Char := oneOf ["password", "passwd", "token", "secret", "credential"]

/-- `["']?` -/
def quoteMark : Regex Char := opt (cls fun c => c == '"' || c == '\'')

/-- `[:=]` -/
def assignMark : Regex Char := cls fun c => c == ':' || c == '='

/-- A word for a credential and the sign of an assignment, with no value yet. -/
def openAssignment : Search Char :=
  { before := behindWord
    body := inTurn [qualifier, secretWords, quoteMark, spaces, assignMark]
    after := atEnd }

/-- `password is`, with no value yet. -/
def openStatement : Search Char :=
  { before := behindWord
    body := inTurn [oneOf ["password", "passwd"], spaces1, lit "is"]
    after := atEnd }

/-- `with password "…`, with the quotation not closed. -/
def openQuotation (mark : Char) : Search Char :=
  { before := behindWord
    body := inTurn [oneOf ["with", "using", "use"], spaces1, namedSecrets, spaces1,
      lit (String.singleton mark), .many (.one fun c => c != mark)]
    after := atEnd }

/-- The intent ends within a credential that the feedback completes. -/
def LeavesOpen (intent feedback : List Char) : Prop :=
  openAssignment.finds intent = true ∨ openStatement.finds intent = true ∨
    ∃ mark ∈ ['"', '\''], mark ∈ feedback ∧ (openQuotation mark).finds intent = true

instance (intent feedback : List Char) : Decidable (LeavesOpen intent feedback) :=
  inferInstanceAs (Decidable (_ ∨ _ ∨ _))

/-! ### Shapes that go on over a line break -/

/-- A letter of a shape that stands within one line. -/
def InLine (c : Char) : Prop := c ≠ '\n'

instance (c : Char) : Decidable (InLine c) := inferInstanceAs (Decidable (_ ≠ _))

/-- The empty line between the parts. -/
def gap : List Char := ['\n', '\n']

theorem blank_of_mem_gap : ∀ c ∈ gap, Blank c := by
  intro c hc
  rcases List.mem_pair.mp hc with rfl | rfl <;> decide

section Crossing

variable {r s : Regex Char} {u n : List Char}

/-- Within one line, nothing goes on over the gap. -/
theorem peel (hr : r.Within InLine) (h : Matches (.seq r s) (u ++ (gap ++ n))) :
    ∃ u₁ u₂, u = u₁ ++ u₂ ∧ Matches r u₁ ∧ Matches s (u₂ ++ (gap ++ n)) := by
  rcases matches_seq_append.mp h with h | ⟨v₁, v₂, hv, hne, hr', -⟩
  · exact h
  · cases v₁ with
    | nil => exact absurd rfl hne
    | cons c v₁ =>
      obtain ⟨rfl, -⟩ := List.cons.inj hv
      exact absurd rfl (hr'.within hr '\n' (by simp))

/-- A text that ends with ink, or nothing. -/
def EndsInk (u : List Char) : Prop := ∀ c ∈ u.getLast?, ¬ Blank c

theorem EndsInk.right {a b : List Char} (h : EndsInk (a ++ b)) : EndsInk b := by
  intro c hc
  refine h c ?_
  have hne : b ≠ [] := by
    rintro rfl
    cases hc
  rwa [List.getLast?_append_of_ne_nil a hne]

theorem EndsInk.eq_nil (h : EndsInk u) (hblank : ∀ c ∈ u, Blank c) : u = [] := by
  by_contra hne
  exact h _ (List.getLast?_eq_some_getLast hne) (hblank _ (List.getLast_mem hne))

/-- Blanks may take in the gap: then what follows them stands in front of the feedback. -/
theorem peel_blank (hr : r.Within Blank) (hs : s.Firsts fun c => ¬ Blank c)
    (hnull : s.nullable = false) (hu : EndsInk u) (hn : ∀ c ∈ n.head?, ¬ Blank c)
    (h : Matches (.seq r s) (u ++ (gap ++ n))) :
    (∃ u₁ u₂, u = u₁ ++ u₂ ∧ Matches r u₁ ∧ Matches s (u₂ ++ (gap ++ n))) ∨
      u = [] ∧ Matches r gap ∧ Matches s n := by
  rcases matches_seq_append.mp h with h | ⟨v₁, v₂, hv, hne, hr', hs'⟩
  · exact .inl h
  · refine .inr ?_
    have hblank := List.forall_mem_append.mp (hr'.within hr)
    have hnil := hu.eq_nil hblank.1
    rw [hnil, List.nil_append] at hr'
    have hv₂ : v₂ ≠ [] := by
      rintro rfl
      rw [nullable_iff.mpr hs'] at hnull
      cases hnull
    -- what follows the blanks begins with ink, so that they take in the gap and no more
    have hv₁ : v₁ = gap := by
      rcases List.append_eq_append_iff.mp hv with ⟨e, rfl, rfl⟩ | ⟨e, hgap, rfl⟩
      · cases e with
        | nil => exact List.append_nil _
        | cons c e => exact absurd (hblank.2 c (by simp)) (hn c rfl)
      · cases e with
        | nil => rw [hgap, List.append_nil]
        | cons c e =>
          have hc : c ∈ gap := hgap ▸ List.mem_append_right v₁ List.mem_cons_self
          exact absurd (blank_of_mem_gap c hc) (hs'.first hs c rfl)
    subst hv₁
    obtain rfl := List.append_cancel_left hv
    exact ⟨hnil, hr', hs'⟩

end Crossing

/-! ### Shapes within one line -/

section Within

variable {P : Char → Prop} {r : Regex Char}

theorem foldClosed_inLine : FoldClosed InLine := by
  intro p hp c hc
  rintro rfl
  have hlower : ('\n' : Char).toLower = '\n' := by decide
  have hupper : ('\n' : Char).toUpper = '\n' := by decide
  have hbreak : p '\n' = true := by simpa [fold, hlower, hupper] using hc
  exact hp _ hbreak rfl

theorem within_lit [DecidablePred P] {text : String} (hP : FoldClosed P)
    (h : text.toList.all (P ·) = true) : (lit text).Within P := by
  rw [lit]
  generalize text.toList = s at h
  induction s with
  | nil => trivial
  | cons c s ih =>
    obtain ⟨hc, hs⟩ := Bool.and_eq_true_iff.mp h
    refine ⟨hP _ fun d hd => ?_, ih hs⟩
    obtain rfl := beq_iff_eq.mp hd
    exact of_decide_eq_true hc

theorem within_oneOf [DecidablePred P] {texts : List String} (hP : FoldClosed P)
    (h : (texts.all fun t => t.toList.all (P ·)) = true) : (oneOf texts).Within P := by
  induction texts with
  | nil => exact fun c hc => absurd hc Bool.false_ne_true
  | cons t texts ih =>
    obtain ⟨ht, htexts⟩ := Bool.and_eq_true_iff.mp h
    exact ⟨within_lit hP ht, ih htexts⟩

theorem within_atLeast (n : ℕ) (h : r.Within P) : (atLeast n r).Within P := by
  induction n with
  | zero => exact h
  | succ n ih => exact ⟨h, ih⟩

theorem within_times (n : ℕ) (h : r.Within P) : (times n r).Within P := by
  induction n with
  | zero => trivial
  | succ n ih => exact ⟨h, ih⟩

theorem within_inTurn {rs : List (Regex Char)} (h : ∀ r ∈ rs, r.Within P) :
    (inTurn rs).Within P := by
  induction rs with
  | nil => trivial
  | cons r rs ih =>
    obtain ⟨hr, hrs⟩ := List.forall_mem_cons.mp h
    exact ⟨hr, ih hrs⟩

/-- No credential with a token of its own has a line break in it. -/
theorem within_sensitiveTokens : ∀ body ∈ sensitiveTokens, body.Within InLine := by
  have hlit (text : String) (h : text.toList.all (InLine ·) = true) : (lit text).Within InLine :=
    within_lit foldClosed_inLine h
  have hcls (p : Char → Bool) (h : p '\n' = false) : (cls p).Within InLine := by
    refine foldClosed_inLine p fun c hc => ?_
    rintro rfl
    rw [h] at hc
    cases hc
  have hbody := hcls bodyChar (by decide)
  have hword := hcls wordChar (by decide)
  have halnum := hcls alnum (by decide)
  have hdigit := hcls digit (by decide)
  have hmany (n : ℕ) {r : Regex Char} (h : r.Within InLine) : (atLeast n r).Within InLine :=
    within_atLeast n h
  have hof (texts : List String) (h : (texts.all fun t => t.toList.all (InLine ·)) = true) :
      (oneOf texts).Within InLine := within_oneOf foldClosed_inLine h
  have hend : ∀ r ∈ ([] : List (Regex Char)), r.Within InLine := nofun
  simp only [sensitiveTokens, List.forall_mem_cons]
  refine ⟨?_, ?_, ?_, ?_, ?_, ?_, ?_, ?_, ?_, ?_, nofun⟩
  all_goals
    refine within_inTurn ?_
    simp only [List.forall_mem_cons]
  · exact ⟨hlit _ (by decide), hmany 20 hbody, hend⟩
  · exact ⟨hof _ (by decide), hmany 36 hword, hend⟩
  · refine ⟨hlit _ (by decide), hcls _ (by decide), hlit _ (by decide), hmany 8 hdigit,
      hlit _ (by decide), hmany 8 hdigit, hlit _ (by decide), ⟨within_inTurn ?_, trivial⟩,
      hmany 20 halnum, hend⟩
    exact List.forall_mem_cons.mpr ⟨hmany 8 hdigit, List.forall_mem_cons.mpr
      ⟨hlit _ (by decide), hend⟩⟩
  · exact ⟨hlit _ (by decide), hmany 16 hbody, hlit _ (by decide), hmany 20 hbody, hend⟩
  · exact ⟨hlit _ (by decide), hof _ (by decide), hlit _ (by decide), hmany 20 halnum, hend⟩
  · exact ⟨hlit _ (by decide), hmany 10 hbody, hlit _ (by decide), hmany 1 hbody,
      hlit _ (by decide), hmany 1 hbody, hend⟩
  · exact ⟨hlit _ (by decide), hcls _ (by decide), hlit _ (by decide), hmany 16 hbody, hend⟩
  · exact ⟨hlit _ (by decide), hmany 36 halnum, hend⟩
  · exact ⟨hlit _ (by decide), hmany 20 hbody, hend⟩
  · exact ⟨hlit _ (by decide), within_times 16 halnum, hend⟩

/-- Nor has a private key. -/
theorem within_privateKey : (inTurn [lit "-----BEGIN",
    .many (inTurn [lit " ", atLeast 1 (cls alnum)]), lit " PRIVATE KEY", opt (lit " BLOCK"),
    lit "-----"]).Within InLine := by
  have hlit (text : String) (h : text.toList.all (InLine ·) = true) : (lit text).Within InLine :=
    within_lit foldClosed_inLine h
  have halnum : (cls alnum).Within InLine := by
    refine foldClosed_inLine alnum fun c hc => ?_
    rintro rfl
    exact absurd hc (by decide)
  have hend : ∀ r ∈ ([] : List (Regex Char)), r.Within InLine := nofun
  refine within_inTurn ?_
  simp only [List.forall_mem_cons]
  refine ⟨hlit _ (by decide), within_inTurn ?_, hlit _ (by decide), ⟨hlit _ (by decide), trivial⟩,
    hlit _ (by decide), hend⟩
  exact List.forall_mem_cons.mpr ⟨hlit _ (by decide), List.forall_mem_cons.mpr
    ⟨within_atLeast 1 halnum, hend⟩⟩

end Within

/-! ### Which shapes go on into the feedback -/

/-- A feedback begins with the word `The`. -/
def Announces (feedback : List Char) : Prop := ∃ rest, feedback = 'T' :: 'h' :: 'e' :: ' ' :: rest

/-- A match of the shape begins in the intent and ends in the feedback. -/
def Straddles (q : Search Char) (intent feedback : List Char) : Prop :=
  ∃ a m n b, intent = a ++ m ∧ feedback = n ++ b ∧ m ≠ [] ∧ n ≠ [] ∧
    allows q.before a.getLast? = true ∧ Matches q.body (m ++ (gap ++ n)) ∧
      allows q.after b.head? = true

theorem finds_atEnd {q : Search Char} (hq : q.after = atEnd) {w : List Char} : q.finds w = true ↔
    ∃ a m, w = a ++ m ∧ allows q.before a.getLast? = true ∧ Matches q.body m := by
  rw [finds_iff]
  constructor
  · rintro ⟨a, m, b, rfl, hbefore, hm, hafter⟩
    cases b with
    | nil => exact ⟨a, m, by rw [List.append_nil], hbefore, hm⟩
    | cons c b =>
      rw [hq] at hafter
      cases hafter
  · rintro ⟨a, m, rfl, hbefore, hm⟩
    exact ⟨a, m, [], by rw [List.append_nil], hbefore, hm, allows_none _⟩

theorem not_straddles_of_inLine {q : Search Char} (hq : q.body.Within InLine)
    (intent feedback : List Char) : ¬ Straddles q intent feedback := by
  rintro ⟨a, m, n, b, -, -, -, -, -, hm, -⟩
  exact hm.within hq '\n' (by simp [gap]) rfl

section Straddling

variable {letter number : Char → Bool} {intent feedback : List Char}

/-- Nothing is left to match the gap. -/
theorem not_matches_gap {u n : List Char} : ¬ Matches .empty (u ++ (gap ++ n)) := by
  intro h
  cases u <;> cases h

theorem matches_inTurn_append {rs ss : List (Regex Char)} {w : List Char} :
    Matches (inTurn (rs ++ ss)) w ↔
      ∃ u v, w = u ++ v ∧ Matches (inTurn rs) u ∧ Matches (inTurn ss) v := by
  induction rs generalizing w with
  | nil =>
    constructor
    · exact fun h => ⟨[], w, rfl, .empty, h⟩
    · rintro ⟨u, v, rfl, hu, hv⟩
      cases hu
      exact hv
  | cons r rs ih =>
    constructor
    · intro h
      obtain ⟨u, w, rfl, hr, hw⟩ := matches_seq.mp h
      obtain ⟨u', v, rfl, hu', hv⟩ := ih.mp hw
      exact ⟨u ++ u', v, (List.append_assoc _ _ _).symm, .seq hr hu', hv⟩
    · rintro ⟨u, v, rfl, hu, hv⟩
      obtain ⟨u₁, u₂, rfl, hr, hrs⟩ := matches_seq.mp hu
      rw [List.append_assoc]
      exact .seq hr (ih.mpr ⟨u₂, v, rfl, hrs, hv⟩)

/-- A match that goes on into the feedback takes its first letter. -/
theorem Announces.head (h : Announces feedback) {n b : List Char} (hn : feedback = n ++ b)
    (hne : n ≠ []) : ∃ n', n = 'T' :: n' := by
  obtain ⟨rest, rfl⟩ := h
  cases n with
  | nil => exact absurd rfl hne
  | cons c n =>
    obtain ⟨rfl, -⟩ := List.cons.inj hn
    exact ⟨n, rfl⟩

/-- Within its first word it takes no more than that word. -/
theorem Announces.taken (h : Announces feedback) {n b : List Char} (hn : feedback = n ++ b)
    (hink : ∀ c ∈ n, ¬ Blank c) : n.length ≤ 3 ∧ ∀ c ∈ n, c ∈ ['T', 'h', 'e'] := by
  obtain ⟨rest, rfl⟩ := h
  have hsplit : ['T', 'h', 'e'] ++ (' ' :: rest) = n ++ b := hn
  rcases List.append_eq_append_iff.mp hsplit with ⟨d, rfl, hd⟩ | ⟨d, hword, -⟩
  · cases d with
    | nil => exact ⟨le_rfl, fun c hc => by rwa [List.append_nil] at hc⟩
    | cons c d =>
      obtain ⟨rfl, -⟩ := List.cons.inj hd
      exact absurd (by decide) (hink ' ' (by simp))
  · have hlength := congrArg List.length hword
    rw [List.length_append] at hlength
    refine ⟨?_, fun c hc => hword ▸ List.mem_append_left d hc⟩
    have hthree : ['T', 'h', 'e'].length = 3 := rfl
    omega

theorem not_blank_head {n : List Char} : ∀ c ∈ ('T' :: n).head?, ¬ Blank c := by
  rintro c ⟨⟩
  decide

theorem matches_oneOf {texts : List String} {w : List Char} (h : Matches (oneOf texts) w) :
    ∃ t ∈ texts, Matches (lit t) w := by
  induction texts with
  | nil => exact absurd h not_matches_never
  | cons t texts ih =>
    rcases matches_alt.mp h with h | h
    · exact ⟨t, List.mem_cons_self, h⟩
    · obtain ⟨t', ht', h⟩ := ih h
      exact ⟨t', List.mem_cons_of_mem t ht', h⟩

/-- The first two letters of a text tell it from the word `The`. -/
def unlikeThe (text : String) : Bool :=
  match text.toList with
  | c :: d :: _ => !(fold (· == c) 'T' && fold (· == d) 'h')
  | _ => false

/-- The feedback does not begin with another word. -/
theorem Announces.not_matches_lit (h : Announces feedback) {n b : List Char}
    (hn : feedback = n ++ b) {text : String} (htext : unlikeThe text = true) {s : Regex Char} :
    ¬ Matches (.seq (lit text) s) n := by
  intro hm
  obtain ⟨rest, rfl⟩ := h
  obtain ⟨u, v, rfl, hu, -⟩ := matches_seq.mp hm
  rw [matches_lit] at hu
  rw [unlikeThe] at htext
  split at htext
  · rename_i c d t heq
    rw [heq] at hu
    obtain ⟨x, w, hx, hw, rfl⟩ := List.forall₂_cons_left_iff.mp hu
    obtain ⟨y, w, hy, -, rfl⟩ := List.forall₂_cons_left_iff.mp hw
    obtain ⟨rfl, hrest⟩ := List.cons.inj hn
    obtain ⟨rfl, -⟩ := List.cons.inj hrest
    rw [hx, hy] at htext
    cases htext
  · cases htext

theorem Announces.not_matches_words (h : Announces feedback) {n b : List Char}
    (hn : feedback = n ++ b) {texts : List String} (htexts : texts.all unlikeThe = true)
    {s : Regex Char} : ¬ Matches (.seq (oneOf texts) s) n := by
  intro hm
  obtain ⟨u, v, rfl, hu, hv⟩ := matches_seq.mp hm
  obtain ⟨t, ht, hu⟩ := matches_oneOf hu
  exact h.not_matches_lit hn (List.all_eq_true.mp htexts t ht) (.seq hu hv)

theorem matches_gap : Matches spaces gap ∧ Matches spaces1 gap := by
  have hbreak : Matches (.one isWhitespace) ['\n'] := .one (by decide)
  have hone : Matches spaces ['\n'] := .more hbreak .stop
  exact ⟨.more hbreak hone, .seq hbreak hone⟩

theorem within_spaces : spaces.Within Blank ∧ spaces1.Within Blank :=
  ⟨fun _ h => h, fun _ h => h, fun _ h => h⟩

theorem firsts_inTurn_singleton {P : Char → Prop} {r : Regex Char} (h : r.Firsts P) :
    (inTurn [r]).Firsts P :=
  ⟨h, fun _ => trivial⟩

theorem within_words {texts : List String}
    (h : (texts.all fun t => t.toList.all (InLine ·)) = true) : (oneOf texts).Within InLine :=
  within_oneOf foldClosed_inLine h

theorem within_cls {p : Char → Bool} (h : p '\n' = false) : (cls p).Within InLine := by
  refine foldClosed_inLine p fun c hc => ?_
  rintro rfl
  rw [h] at hc
  cases hc

theorem within_qualifier : qualifier.Within InLine := by
  refine within_inTurn (List.forall_mem_cons.mpr ⟨within_cls (by decide), ?_⟩)
  refine List.forall_mem_cons.mpr ⟨within_cls (by decide), ?_⟩
  exact List.forall_mem_cons.mpr ⟨within_lit foldClosed_inLine (by decide), nofun⟩

theorem within_nonspace : nonspace.Within InLine := by
  rintro c hc rfl
  exact absurd hc (by decide)

theorem firsts_nonspace : nonspace.Firsts fun c => ¬ Blank c := lasts_nonspace

theorem firsts_assignMark : assignMark.Firsts fun c => ¬ Blank c := by
  refine foldClosed_not_blank _ fun c hc => ?_
  rcases Bool.or_eq_true_iff.mp hc with hc | hc
  all_goals
    obtain rfl := beq_iff_eq.mp hc
    decide

/-- An assignment goes on into the feedback behind its sign. -/
theorem straddles_assignment (hintent : EndsInk intent) (hfeedback : Announces feedback) :
    Straddles { before := behindWord
                body := inTurn [qualifier, secretWords, quoteMark, spaces, assignMark, spaces,
                  nonspace]
                after := none } intent feedback ↔ openAssignment.finds intent = true := by
  rw [finds_atEnd rfl]
  constructor
  · rintro ⟨a, m, n, b, rfl, hn, -, hne, hbefore, hm, -⟩
    obtain ⟨n', rfl⟩ := hfeedback.head hn hne
    have hend := hintent.right
    obtain ⟨u₁, m₁, rfl, h₁, hm⟩ := peel within_qualifier hm
    obtain ⟨u₂, m₂, rfl, h₂, hm⟩ := peel (within_words (by decide)) hm
    obtain ⟨u₃, m₃, rfl, h₃, hm⟩ := peel (r := quoteMark) ⟨within_cls (by decide), trivial⟩ hm
    rcases peel_blank within_spaces.1 (firsts_inTurn firsts_assignMark rfl) rfl
      hend.right.right.right not_blank_head hm with ⟨u₄, m₄, rfl, h₄, hm⟩ | ⟨-, -, hm⟩
    · obtain ⟨u₅, m₅, rfl, h₅, hm⟩ := peel (r := assignMark) (within_cls (by decide)) hm
      rcases peel_blank within_spaces.1 (firsts_inTurn_singleton firsts_nonspace) rfl
        hend.right.right.right.right.right not_blank_head hm
        with ⟨u₆, m₆, rfl, h₆, hm⟩ | ⟨rfl, -, -⟩
      · obtain ⟨_, _, -, -, hm⟩ := peel within_nonspace hm
        exact absurd hm not_matches_gap
      · exact ⟨a, _, rfl, hbefore, .seq h₁ (.seq h₂ (.seq h₃ (.seq h₄ (.seq h₅ .empty))))⟩
    · obtain ⟨_, _, heq, hmark, -⟩ := matches_seq.mp hm
      obtain ⟨c, hc, rfl⟩ := matches_one.mp hmark
      obtain ⟨rfl, -⟩ := List.cons.inj heq
      exact absurd hc (by decide)
  · rintro ⟨a, m, rfl, hbefore, hm⟩
    obtain ⟨rest, rfl⟩ := hfeedback
    have hvalue : Matches (inTurn [spaces, nonspace]) (gap ++ ['T']) :=
      .seq matches_gap.1 (.seq (v := []) (.one (by decide)) .empty)
    refine ⟨a, m, ['T'], _, rfl, rfl, ?_, List.cons_ne_nil _ _, hbefore,
      matches_inTurn_append.mpr ⟨m, _, rfl, hm, hvalue⟩, rfl⟩
    rintro rfl
    exact absurd (nullable_iff.mpr hm) (by decide)

/-- A statement goes on into the feedback behind its verb. -/
theorem straddles_statement (hintent : EndsInk intent) (hfeedback : Announces feedback) :
    Straddles { before := behindWord
                body := inTurn [oneOf ["password", "passwd"], spaces1, lit "is", spaces1, nonspace]
                after := none } intent feedback ↔ openStatement.finds intent = true := by
  rw [finds_atEnd rfl]
  constructor
  · rintro ⟨a, m, n, b, rfl, hn, -, hne, hbefore, hm, -⟩
    obtain ⟨n', rfl⟩ := hfeedback.head hn hne
    have hend := hintent.right
    have his : (lit "is").Within InLine := within_lit foldClosed_inLine (by decide)
    have hfirst : (lit "is").Firsts fun c => ¬ Blank c :=
      firsts_lit foldClosed_not_blank (by decide)
    obtain ⟨u₁, m₁, rfl, h₁, hm⟩ := peel (within_words (by decide)) hm
    rcases peel_blank within_spaces.2 (firsts_inTurn hfirst rfl) rfl hend.right not_blank_head hm
      with ⟨u₂, m₂, rfl, h₂, hm⟩ | ⟨-, -, hm⟩
    · obtain ⟨u₃, m₃, rfl, h₃, hm⟩ := peel his hm
      rcases peel_blank within_spaces.2 (firsts_inTurn_singleton firsts_nonspace) rfl
        hend.right.right.right not_blank_head hm with ⟨u₄, m₄, rfl, h₄, hm⟩ | ⟨rfl, -, -⟩
      · obtain ⟨_, _, -, -, hm⟩ := peel within_nonspace hm
        exact absurd hm not_matches_gap
      · exact ⟨a, _, rfl, hbefore, .seq h₁ (.seq h₂ (.seq h₃ .empty))⟩
    · exact absurd hm (hfeedback.not_matches_lit hn (by decide))
  · rintro ⟨a, m, rfl, hbefore, hm⟩
    obtain ⟨rest, rfl⟩ := hfeedback
    have hvalue : Matches (inTurn [spaces1, nonspace]) (gap ++ ['T']) :=
      .seq matches_gap.2 (.seq (v := []) (.one (by decide)) .empty)
    refine ⟨a, m, ['T'], _, rfl, rfl, ?_, List.cons_ne_nil _ _, hbefore,
      matches_inTurn_append.mpr ⟨m, _, rfl, hm, hvalue⟩, rfl⟩
    rintro rfl
    exact absurd (nullable_iff.mpr hm) (by decide)

/-- The three forms of a value behind the name of a secret. -/
def secretValue (letter : Char → Bool) : Regex Char :=
  .alt (inTurn [lit "\"", atLeast 1 (.one fun c => c != '"'), lit "\""])
    (.alt (inTurn [lit "'", atLeast 1 (.one fun c => c != '\''), lit "'"])
      (inTurn [.many nonspace, .one fun c => !(letter c || isWhitespace c), .many nonspace]))

/-- A quotation. -/
def quoted (mark : Char) : Regex Char :=
  inTurn [lit (String.singleton mark), atLeast 1 (.one fun c => c != mark),
    lit (String.singleton mark)]

theorem matches_many_one {p : Char → Bool} {w : List Char} :
    Matches (.many (.one p)) w ↔ ∀ c ∈ w, p c = true := by
  constructor
  · intro h
    exact h.within (P := fun c => p c = true) fun _ hc => hc
  · intro h
    induction w with
    | nil => exact .stop
    | cons c w ih =>
      obtain ⟨hc, hw⟩ := List.forall_mem_cons.mp h
      exact .more (.one hc) (ih hw)

/-- A mark has no other case. -/
theorem fold_mark {mark : Char} (hmark : mark ∈ ['"', '\'']) (c : Char) :
    fold (· == mark) c = true ↔ c = mark := by
  have hsmall : mark.toNat < 65 := by rcases List.mem_pair.mp hmark with rfl | rfl <;> decide
  have hlower {d : Char} (h : d.toLower = mark) : d = mark := by
    have hnat := toNat_toLower d
    rw [h] at hnat
    split_ifs at hnat
    · omega
    · exact (Char.toNat_inj.mp hnat).symm
  have hother : ('s' == mark) = false ∧ ('S' == mark) = false ∧ ('k' == mark) = false ∧
      ('K' == mark) = false := by
    rcases List.mem_pair.mp hmark with rfl | rfl <;> decide
  rw [fold, hother.1, hother.2.1, hother.2.2.1, hother.2.2.2]
  simp only [Bool.or_self, Bool.and_false, Bool.or_false, Bool.or_eq_true, beq_iff_eq]
  constructor
  · rintro (h | h)
    · exact hlower h
    · have hself : mark.toLower = mark := by
        rcases List.mem_pair.mp hmark with rfl | rfl <;> decide
      exact hlower (by rw [← toLower_toUpper, h, hself])
  · rintro rfl
    rcases List.mem_pair.mp hmark with rfl | rfl <;> decide

theorem matches_singleton {mark : Char} (hmark : mark ∈ ['"', '\'']) {w : List Char} :
    Matches (lit (String.singleton mark)) w ↔ w = [mark] := by
  have htext : (String.singleton mark).toList = [mark] := by simp
  rw [matches_lit, htext]
  constructor
  · intro h
    obtain ⟨c, v, hc, hv, rfl⟩ := List.forall₂_cons_left_iff.mp h
    obtain rfl := (fold_mark hmark c).mp hc
    cases hv
    rfl
  · rintro rfl
    exact .cons ((fold_mark hmark mark).mpr rfl) .nil

/-- A quotation that is open at the gap. -/
theorem matches_quoted_gap {mark : Char} (hmark : mark ∈ ['"', '\'']) {u n : List Char}
    (hne : n ≠ []) (h : Matches (quoted mark) (u ++ (gap ++ n))) :
    mark ∈ n ∧
      Matches (inTurn [lit (String.singleton mark), .many (.one fun c => c != mark)]) u := by
  have hline : (lit (String.singleton mark)).Within InLine := by
    refine within_lit foldClosed_inLine ?_
    rcases List.mem_pair.mp hmark with rfl | rfl <;> decide
  obtain ⟨u₁, u₂, rfl, h₁, h⟩ := peel hline h
  obtain ⟨w, v, heq, hw, hv⟩ := matches_seq.mp h
  obtain ⟨v₁, v₂, rfl, hv₁, hv₂⟩ := matches_seq.mp hv
  obtain rfl := (matches_singleton hmark).mp hv₁
  cases hv₂
  -- the mark that closes it is the last letter, and none stands before it
  have hinside : ∀ c ∈ w, c ≠ mark := by
    intro c hc
    have hall := hw.within (P := fun c => (c != mark) = true) ⟨fun _ h => h, fun _ h => h⟩ c hc
    exact bne_iff_ne.mp hall
  have hlast : u₂ ++ gap ++ n = w ++ [mark] := by rw [List.append_assoc, heq]; rfl
  obtain ⟨d, rfl, rfl⟩ : ∃ d, w = u₂ ++ gap ++ d ∧ n = d ++ [mark] := by
    rcases List.append_eq_append_iff.mp hlast with h | ⟨d, hd, hn⟩
    · exact h
    · cases d with
      | nil => exact ⟨[], by rw [List.append_nil, hd, List.append_nil], hn.symm⟩
      | cons c d =>
        obtain ⟨rfl, hnil⟩ := List.cons.inj hn
        exact absurd (List.append_eq_nil_iff.mp hnil.symm).2 hne
  refine ⟨List.mem_append_right d List.mem_cons_self, .seq h₁ ?_⟩
  rw [← List.append_nil u₂]
  refine .seq (matches_many_one.mpr fun c hc => bne_iff_ne.mpr (hinside c ?_)) .empty
  simp [hc]

/-- A quotation that is open, and what closes it in the feedback. -/
theorem matches_quoted {mark : Char} (hmark : mark ∈ ['"', '\'']) {u f : List Char}
    (h : Matches (inTurn [lit (String.singleton mark), .many (.one fun c => c != mark)]) u)
    (hf : mark ∉ f) : Matches (quoted mark) (u ++ (gap ++ (f ++ [mark]))) := by
  have hbreak : ∀ c ∈ gap, (c != mark) = true := by
    intro c hc
    have hblank := blank_of_mem_gap c hc
    refine bne_iff_ne.mpr fun heq => ?_
    subst heq
    rcases List.mem_pair.mp hmark with rfl | rfl <;> exact absurd hblank (by decide)
  obtain ⟨u₁, v, rfl, h₁, hv⟩ := matches_seq.mp h
  obtain ⟨u₂, v₂, rfl, h₂, hv₂⟩ := matches_seq.mp hv
  cases hv₂
  have hall : ∀ c ∈ u₂ ++ gap ++ f, (c != mark) = true := by
    refine List.forall_mem_append.mpr ⟨List.forall_mem_append.mpr ⟨?_, hbreak⟩, fun c hc => ?_⟩
    · exact matches_many_one.mp h₂
    · exact bne_iff_ne.mpr fun heq => hf (heq ▸ hc)
  have hbody : Matches (atLeast 1 (.one fun c => c != mark)) (u₂ ++ gap ++ f) := by
    cases hw : u₂ ++ gap ++ f with
    | nil => simp [gap] at hw
    | cons c w =>
      rw [hw] at hall
      obtain ⟨hc, hw⟩ := List.forall_mem_cons.mp hall
      exact .seq (u := [c]) (.one hc) (matches_many_one.mpr hw)
  have hclose : Matches (inTurn [lit (String.singleton mark)]) [mark] :=
    .seq (v := []) ((matches_singleton hmark).mpr rfl) .empty
  have hsplit : u₁ ++ (u₂ ++ []) ++ (gap ++ (f ++ [mark])) =
      u₁ ++ ((u₂ ++ gap ++ f) ++ [mark]) := by simp
  rw [quoted, hsplit]
  exact .seq h₁ (.seq hbody hclose)

theorem secretValue_eq (letter : Char → Bool) : secretValue letter = .alt (quoted '"')
    (.alt (quoted '\'')
      (inTurn [.many nonspace, .one fun c => !(letter c || isWhitespace c), .many nonspace])) := by
  have hdouble : String.singleton '"' = "\"" := by decide
  have hsingle : String.singleton '\'' = "'" := by decide
  rw [quoted, quoted, hdouble, hsingle]
  rfl

theorem matches_inTurn_singleton {r : Regex Char} {w : List Char} :
    Matches (inTurn [r]) w ↔ Matches r w := by
  constructor
  · intro h
    obtain ⟨u, v, rfl, hu, hv⟩ := matches_seq.mp h
    cases hv
    rwa [List.append_nil]
  · intro h
    rw [← List.append_nil w]
    exact .seq h .empty

/-- A value without quotation marks. -/
def plainValue (letter : Char → Bool) : Regex Char :=
  inTurn [.many nonspace, .one fun c => !(letter c || isWhitespace c), .many nonspace]

theorem firsts_plainValue (letter : Char → Bool) :
    (plainValue letter).Firsts fun c => ¬ Blank c := by
  refine ⟨firsts_nonspace, fun _ => firsts_inTurn (fun c hc hblank => ?_) rfl⟩
  have hspace : isWhitespace c = true := hblank
  have hother : (!(letter c || isWhitespace c)) = true := hc
  rw [hspace, Bool.or_true] at hother
  cases hother

theorem within_plainValue (letter : Char → Bool) :
    (plainValue letter).Within fun c => ¬ Blank c := by
  have hother := firsts_plainValue letter
  exact ⟨firsts_nonspace, (hother.2 rfl).1, firsts_nonspace, trivial⟩

/-- A plain value has something other than letters, and the first word of the feedback has not. -/
theorem not_matches_plainValue {letter : Char → Bool} (hfeedback : Announces feedback)
    (hletter : ∀ c ∈ ['T', 'h', 'e'], letter c = true) {n b : List Char} (hn : feedback = n ++ b) :
    ¬ Matches (plainValue letter) n := by
  intro h
  have hword := (hfeedback.taken hn (h.within (within_plainValue letter))).2
  obtain ⟨u, v, rfl, -, hv⟩ := matches_seq.mp h
  obtain ⟨x, w, rfl, hx, -⟩ := matches_seq.mp hv
  obtain ⟨c, hc, rfl⟩ := matches_one.mp hx
  rw [hletter c (hword c (by simp))] at hc
  cases hc

theorem firsts_secretValue (letter : Char → Bool) :
    (secretValue letter).Firsts fun c => ¬ Blank c :=
  ⟨firsts_inTurn (firsts_lit foldClosed_not_blank (by decide)) rfl,
    firsts_inTurn (firsts_lit foldClosed_not_blank (by decide)) rfl, firsts_plainValue letter⟩

/-- No value stands at the front of the feedback. -/
theorem not_matches_secretValue {letter : Char → Bool} (hfeedback : Announces feedback)
    (hletter : ∀ c ∈ ['T', 'h', 'e'], letter c = true) {n b : List Char} (hn : feedback = n ++ b) :
    ¬ Matches (secretValue letter) n := by
  have hquoted {mark : Char} (hmark : mark ∈ ['"', '\'']) : ¬ Matches (quoted mark) n := by
    intro h
    obtain ⟨u, v, rfl, hu, -⟩ := matches_seq.mp h
    obtain rfl := (matches_singleton hmark).mp hu
    obtain ⟨n', heq⟩ := hfeedback.head hn (List.cons_ne_nil mark v)
    obtain ⟨rfl, -⟩ := List.cons.inj heq
    exact absurd hmark (by decide)
  intro h
  rw [secretValue_eq] at h
  rcases matches_alt.mp h with h | h
  · exact hquoted (by simp) h
  · rcases matches_alt.mp h with h | h
    · exact hquoted (by simp) h
    · exact not_matches_plainValue hfeedback hletter hn h

/-- A quotation goes on into the feedback up to a mark in it. -/
theorem straddles_quotation {letter : Char → Bool} (hintent : EndsInk intent)
    (hfeedback : Announces feedback) (hletter : ∀ c ∈ ['T', 'h', 'e'], letter c = true) :
    Straddles { before := behindWord
                body := inTurn [oneOf ["with", "using", "use"], spaces1, namedSecrets, spaces1,
                  secretValue letter]
                after := none } intent feedback ↔
      ∃ mark ∈ ['"', '\''], mark ∈ feedback ∧ (openQuotation mark).finds intent = true := by
  constructor
  · rintro ⟨a, m, n, b, rfl, hn, -, hne, hbefore, hm, -⟩
    obtain ⟨n', rfl⟩ := hfeedback.head hn hne
    have hend := hintent.right
    have hnamed : namedSecrets.Firsts fun c => ¬ Blank c :=
      firsts_oneOf foldClosed_not_blank (by decide)
    obtain ⟨u₁, m₁, rfl, h₁, hm⟩ := peel (within_words (by decide)) hm
    rcases peel_blank within_spaces.2 (firsts_inTurn hnamed rfl) rfl hend.right not_blank_head hm
      with ⟨u₂, m₂, rfl, h₂, hm⟩ | ⟨-, -, hm⟩
    · obtain ⟨u₃, m₃, rfl, h₃, hm⟩ := peel (r := namedSecrets) (within_words (by decide)) hm
      rcases peel_blank within_spaces.2 (firsts_inTurn_singleton (firsts_secretValue letter))
        rfl hend.right.right.right not_blank_head hm with ⟨u₄, m₄, rfl, h₄, hm⟩ | ⟨-, -, hm⟩
      · have hopen {mark : Char} (hmark : mark ∈ ['"', '\''])
            (h : Matches (quoted mark) (m₄ ++ (gap ++ 'T' :: n'))) :
            ∃ mark ∈ ['"', '\''], mark ∈ feedback ∧
              (openQuotation mark).finds (a ++ (u₁ ++ (u₂ ++ (u₃ ++ (u₄ ++ m₄))))) = true := by
          obtain ⟨hmem, hopen⟩ := matches_quoted_gap hmark hne h
          refine ⟨mark, hmark, hn ▸ List.mem_append_left b hmem, (finds_atEnd rfl).mpr ?_⟩
          exact ⟨a, _, rfl, hbefore, .seq h₁ (.seq h₂ (.seq h₃ (.seq h₄ hopen)))⟩
        rw [matches_inTurn_singleton, secretValue_eq] at hm
        rcases matches_alt.mp hm with hm | hm
        · exact hopen (by simp) hm
        · rcases matches_alt.mp hm with hm | hm
          · exact hopen (by simp) hm
          · exact absurd (by decide) (hm.within (within_plainValue letter) '\n' (by simp [gap]))
      · exact absurd (matches_inTurn_singleton.mp hm) (not_matches_secretValue hfeedback hletter hn)
    · exact absurd hm (hfeedback.not_matches_words hn (by decide))
  · rintro ⟨mark, hmark, hmem, hfinds⟩
    obtain ⟨a, m, rfl, hbefore, hm⟩ := (finds_atEnd rfl).mp hfinds
    obtain ⟨f, b, rfl, hf⟩ := List.eq_append_cons_of_mem hmem
    have hparts := @matches_inTurn_append [oneOf ["with", "using", "use"], spaces1, namedSecrets,
      spaces1]
    obtain ⟨u, v, rfl, hu, hv⟩ := hparts.mp hm
    have hvalue : Matches (secretValue letter) (v ++ (gap ++ (f ++ [mark]))) := by
      rw [secretValue_eq]
      have hquoted := matches_quoted hmark hv hf
      rcases List.mem_pair.mp hmark with rfl | rfl
      · exact .left hquoted
      · exact .right (.left hquoted)
    refine ⟨a, u ++ v, f ++ [mark], b, rfl, by simp, ?_, by simp, hbefore, ?_, rfl⟩
    · intro hnil
      rw [List.append_eq_nil_iff] at hnil
      rw [hnil.1] at hu
      exact absurd (nullable_iff.mpr hu) (by decide)
    · have hbody := hparts.mpr ⟨u, _, rfl, hu, matches_inTurn_singleton.mpr hvalue⟩
      rw [List.append_assoc]
      exact hbody

/-! ### Shapes that are too long for the word -/

theorem le_length_of_matches_atLeast {p : Char → Bool} {k : ℕ} {w : List Char}
    (h : Matches (atLeast k (.one p)) w) : k ≤ w.length := by
  induction k generalizing w with
  | zero => exact Nat.zero_le _
  | succ k ih =>
    obtain ⟨u, v, rfl, hu, hv⟩ := matches_seq.mp h
    obtain ⟨c, -, rfl⟩ := matches_one.mp hu
    exact Nat.succ_le_succ (ih hv)

/-- A run of ink takes no more than the first word of the feedback. -/
theorem Announces.not_matches_run (h : Announces feedback) {n b : List Char}
    (hn : feedback = n ++ b) {p : Char → Bool} (hp : (Regex.one p).Within fun c => ¬ Blank c)
    {k : ℕ} (hk : 3 < k) : ¬ Matches (inTurn [atLeast k (.one p)]) n := by
  intro hm
  have hrun := matches_inTurn_singleton.mp hm
  have hlong := le_length_of_matches_atLeast hrun
  have hshort := (h.taken hn (hrun.within (within_atLeast k hp))).1
  omega

/-- Nor does it go on over the gap. -/
theorem not_matches_run_gap {p : Char → Bool} (hp : (Regex.one p).Within fun c => ¬ Blank c)
    {k : ℕ} {u n : List Char} : ¬ Matches (inTurn [atLeast k (.one p)]) (u ++ (gap ++ n)) := by
  intro hm
  have hrun := matches_inTurn_singleton.mp hm
  exact hrun.within (within_atLeast k hp) '\n' (by simp [gap]) (by decide)

theorem firsts_run {p : Char → Bool} (hp : (Regex.one p).Within fun c => ¬ Blank c) (k : ℕ) :
    (inTurn [atLeast (k + 1) (.one p)]).Firsts fun c => ¬ Blank c :=
  firsts_inTurn_singleton ⟨hp, nofun⟩

/-- What a run of ink follows behind blanks begins and ends in the intent. -/
theorem not_matches_blank_run (hintent : EndsInk intent) (hfeedback : Announces feedback)
    {n b : List Char} (hn : feedback = n ++ b) (hne : n ≠ []) {p : Char → Bool}
    (hp : (Regex.one p).Within fun c => ¬ Blank c) {k : ℕ} (hk : 3 < k) :
    ¬ Matches (inTurn [spaces1, atLeast k (.one p)]) (intent ++ (gap ++ n)) := by
  intro hm
  obtain ⟨n', rfl⟩ := hfeedback.head hn hne
  obtain ⟨k, rfl⟩ := Nat.exists_eq_add_of_lt hk
  rcases peel_blank within_spaces.2 (firsts_run hp _) rfl hintent not_blank_head hm
    with ⟨_, _, -, -, hm⟩ | ⟨-, -, hm⟩
  · exact not_matches_run_gap hp hm
  · exact hfeedback.not_matches_run hn hp hk hm

/-- `bearer …` -/
theorem not_straddles_bearer {before after : Option (Char → Bool)} (hintent : EndsInk intent)
    (hfeedback : Announces feedback) : ¬ Straddles
      { before := before
        body := inTurn [lit "bearer", spaces1, atLeast 20 nonspace]
        after := after } intent feedback := by
  rintro ⟨a, m, n, b, rfl, hn, -, hne, -, hm, -⟩
  obtain ⟨u₁, m₁, rfl, -, hm⟩ := peel (within_lit foldClosed_inLine (by decide)) hm
  exact not_matches_blank_run hintent.right.right hfeedback hn hne firsts_nonspace (by decide) hm

/-- The letters of a token. -/
def tokenChar : Char → Bool :=
  fold fun c => wordChar c || c == '+' || c == '/' || c == '-'

theorem within_tokenChar : (Regex.one tokenChar).Within fun c => ¬ Blank c := by
  refine foldClosed_not_blank _ fun c hc => ?_
  rw [Bool.or_eq_true, Bool.or_eq_true, Bool.or_eq_true] at hc
  rcases hc with ((hc | hc) | hc) | hc
  · exact (inked_wordChar hc).1
  all_goals
    obtain rfl := beq_iff_eq.mp hc
    decide

/-- `token is …` -/
theorem not_straddles_named {after : Option (Char → Bool)} (hintent : EndsInk intent)
    (hfeedback : Announces feedback) : ¬ Straddles
      { before := behindWord
        body := inTurn [qualifier, oneOf ["token", "secret", "credential"], spaces1,
          opt (inTurn [oneOf ["is", "to"], spaces1]), atLeast 16 (.one tokenChar)]
        after := after } intent feedback := by
  rintro ⟨a, m, n, b, rfl, hn, -, hne, -, hm, -⟩
  have hverb : (oneOf ["is", "to"]).Within InLine := within_words (by decide)
  have hfirst : (inTurn [opt (inTurn [oneOf ["is", "to"], spaces1]),
      atLeast 16 (.one tokenChar)]).Firsts fun c => ¬ Blank c :=
    ⟨⟨firsts_inTurn (firsts_oneOf foldClosed_not_blank (by decide)) rfl, trivial⟩,
      fun _ => firsts_run within_tokenChar 15⟩
  -- the verb may be left out
  have hopt {w : List Char} (h : Matches (inTurn [opt (inTurn [oneOf ["is", "to"], spaces1]),
      atLeast 16 (.one tokenChar)]) w) : Matches (inTurn [oneOf ["is", "to"], spaces1,
        atLeast 16 (.one tokenChar)]) w ∨ Matches (inTurn [atLeast 16 (.one tokenChar)]) w := by
    obtain ⟨u, v, rfl, hu, hv⟩ := matches_seq.mp h
    rcases matches_alt.mp hu with hu | hu
    · exact .inl (matches_inTurn_append.mpr ⟨u, v, rfl, hu, hv⟩)
    · cases hu
      exact .inr hv
  have hend := hintent.right
  obtain ⟨u₁, m₁, rfl, -, hm⟩ := peel within_qualifier hm
  obtain ⟨u₂, m₂, rfl, -, hm⟩ := peel (within_words (by decide)) hm
  obtain ⟨n', rfl⟩ := hfeedback.head hn hne
  rcases peel_blank within_spaces.2 hfirst rfl hend.right.right not_blank_head hm
    with ⟨u₃, m₃, rfl, -, hm⟩ | ⟨-, -, hm⟩
  · rcases hopt hm with hm | hm
    · obtain ⟨u₄, m₄, rfl, -, hm⟩ := peel hverb hm
      exact not_matches_blank_run hend.right.right.right.right hfeedback hn hne within_tokenChar
        (by decide) hm
    · exact not_matches_run_gap within_tokenChar hm
  · rcases hopt hm with hm | hm
    · exact hfeedback.not_matches_words hn (by decide) hm
    · exact hfeedback.not_matches_run hn within_tokenChar (by decide) hm

/-- The shapes that begin in the intent and end in the feedback. -/
theorem straddles_iff (hintent : EndsInk intent) (hfeedback : Announces feedback)
    (hletter : ∀ c ∈ ['T', 'h', 'e'], letter c = true) :
    (∃ q ∈ sensitiveSearches letter number, Straddles q intent feedback) ↔
      LeavesOpen intent feedback := by
  constructor
  · rintro ⟨q, hq, hstraddles⟩
    rcases List.mem_append.mp hq with hq | hq
    · simp only [sensitivePatterns, List.mem_cons, List.not_mem_nil, or_false] at hq
      rcases hq with rfl | rfl | rfl | rfl | rfl | rfl
      · exact .inl ((straddles_assignment hintent hfeedback).mp hstraddles)
      · exact .inr (.inl ((straddles_statement hintent hfeedback).mp hstraddles))
      · exact .inr (.inr ((straddles_quotation hintent hfeedback hletter).mp hstraddles))
      · exact absurd hstraddles (not_straddles_named hintent hfeedback)
      · exact absurd hstraddles (not_straddles_bearer hintent hfeedback)
      · exact absurd hstraddles (not_straddles_of_inLine within_privateKey intent feedback)
    · obtain ⟨body, hbody, rfl⟩ := List.mem_map.mp hq
      have hline := within_sensitiveTokens body hbody
      exact absurd hstraddles (not_straddles_of_inLine hline intent feedback)
  · have hmem {q : Search Char} (hq : q ∈ sensitivePatterns letter number) :
        q ∈ sensitiveSearches letter number := List.mem_append_left _ hq
    rintro (h | h | h)
    · refine ⟨_, hmem ?_, (straddles_assignment hintent hfeedback).mpr h⟩
      exact List.mem_cons_self
    · refine ⟨_, hmem ?_, (straddles_statement hintent hfeedback).mpr h⟩
      exact List.mem_cons_of_mem _ List.mem_cons_self
    · refine ⟨_, hmem ?_, (straddles_quotation hintent hfeedback hletter).mpr h⟩
      exact List.mem_cons_of_mem _ (List.mem_cons_of_mem _ List.mem_cons_self)

end Straddling

/-- **The joined text is sensitive if and only if a part of it is, or the intent leaves a credential
open.** -/
theorem containsSensitive_joined_iff {letter number : Char → Bool} {intent feedback : List Char}
    (hclasses : ∀ c, isWhitespace c = true → letter c = false ∧ number c = false)
    (hletter : ∀ c ∈ ['T', 'h', 'e'], letter c = true) (hintent : EndsInk intent)
    (hfeedback : Announces feedback) :
    containsSensitive letter number (intent ++ (gap ++ feedback)) = true ↔
      containsSensitive letter number intent = true ∨
        containsSensitive letter number feedback = true ∨ LeavesOpen intent feedback := by
  have hgap : gap ≠ [] := List.cons_ne_nil _ _
  have hsplit (q : Search Char) (hq : q ∈ sensitiveSearches letter number) :
      q.finds (intent ++ (gap ++ feedback)) = true ↔
        q.finds intent = true ∨ q.finds feedback = true ∨ Straddles q intent feedback :=
    (fits_sensitiveSearches hclasses q hq).solid.finds_append blank_of_mem_gap hgap
  have hopen := @straddles_iff letter number intent feedback hintent hfeedback hletter
  simp only [containsSensitive, List.any_eq_true, ← hopen]
  rw [← exists_or, ← exists_or]
  refine exists_congr fun q => ?_
  rw [← and_or_left, ← and_or_left]
  exact and_congr_right (hsplit q)

end Sysknife.Brain
