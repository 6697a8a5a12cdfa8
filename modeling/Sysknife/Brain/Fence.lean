import Sysknife.Brain.ErrorText
import Sysknife.Brain.Prefs
import Sysknife.Json
import Sysknife.Lib.Regex

/-!
# The fence around saved preferences

`remember` refuses a fact with a credential in it: `contains_sensitive` looks for the shapes of
credentials. It looks at the fact as it was passed, and what is written later is the fact after
normalisation. The classes `\p{L}` and `\p{N}` are parameters.

* `fits_sensitivePatterns`, `fits_sensitiveTokens`: no shape begins or ends with whitespace, and
  none begins with the dash of an item.
* `containsSensitive_itemLine`: the line of a fact is sensitive if and only if the fact is.
* `line_sensitive_iff`: **what is written is no credential if and only if the fact, as it reads
  without what cannot be seen, is none.**
-/

namespace Sysknife.Brain

open Slices Marks Regex

/-! ### The shapes of credentials -/

/-- `(?i)` for a class of ASCII characters: besides the letters of either case, `ſ` stands for
`s` and the Kelvin sign for `k`. -/
def fold (p : Char → Bool) (c : Char) : Bool :=
  p c.toLower || p c.toUpper || (c == '\u017f' && (p 's' || p 'S')) ||
    (c == '\u212a' && (p 'k' || p 'K'))

/-- A literal text. -/
def lit (text : String) : Regex Char :=
  text.toList.foldr (fun c r => .seq (.one (fold (· == c))) r) .empty

/-- One of several texts. -/
def oneOf (texts : List String) : Regex Char := texts.foldr (fun t r => .alt (lit t) r) never

/-- A class of ASCII characters. -/
def cls (p : Char → Bool) : Regex Char := .one (fold p)

def opt (r : Regex Char) : Regex Char := .alt r .empty

/-- `r{n,}` -/
def atLeast (n : ℕ) (r : Regex Char) : Regex Char := (List.replicate n r).foldr .seq (.many r)

/-- `r{n}` -/
def times (n : ℕ) (r : Regex Char) : Regex Char := (List.replicate n r).foldr .seq .empty

/-- `\s*` -/
def spaces : Regex Char := .many (.one isWhitespace)

/-- `\s+` -/
def spaces1 : Regex Char := .seq (.one isWhitespace) spaces

/-- `\S` -/
def nonspace : Regex Char := .one fun c => !isWhitespace c

/-- One expression behind the other. -/
def inTurn (rs : List (Regex Char)) : Regex Char := rs.foldr .seq .empty

def alnum (c : Char) : Bool := c.isAlphanum

def wordChar (c : Char) : Bool := c.isAlphanum || c == '_'

def digit (c : Char) : Bool := c.isDigit

/-- `[a-z0-9_-]` -/
def bodyChar (c : Char) : Bool := wordChar c || c == '-'

/-- `(?:[a-z0-9]+_)*` -/
def qualifier : Regex Char := .many (inTurn [cls alnum, .many (cls alnum), lit "_"])

/-- `(?:^|[^A-Za-z0-9_])` -/
def behindWord : Option (Char → Bool) := some fun c => !fold wordChar c

section Classes

-- The classes `\p{L}` and `\p{N}`, with the case folding that goes with them.
variable (letter number : Char → Bool)

/-- `[^\p{L}\p{N}_-]`, at the start or the end of a token. -/
def outside : Option (Char → Bool) :=
  some fun c => !(letter c || number c || c == '_' || c == '-')

/-- `SENSITIVE_PATTERNS` -/
def sensitivePatterns : List (Search Char) :=
  [{ before := behindWord
     body := inTurn [qualifier,
      oneOf ["password", "passwd", "secret", "api_key", "apikey", "access_key", "private_key",
        "token", "credential"],
      opt (cls fun c => c == '"' || c == '\''), spaces, cls fun c => c == ':' || c == '=', spaces,
      nonspace]
     after := none },
   { before := behindWord
     body := inTurn [oneOf ["password", "passwd"], spaces1, lit "is", spaces1, nonspace]
     after := none },
   { before := behindWord
     body := inTurn [oneOf ["with", "using", "use"], spaces1,
      oneOf ["password", "passwd", "token", "secret", "credential"], spaces1,
      .alt (inTurn [lit "\"", atLeast 1 (.one fun c => c != '"'), lit "\""])
        (.alt (inTurn [lit "'", atLeast 1 (.one fun c => c != '\''), lit "'"])
          (inTurn [.many nonspace, .one fun c => !(letter c || isWhitespace c), .many nonspace]))]
     after := none },
   { before := behindWord
     body := inTurn [qualifier, oneOf ["token", "secret", "credential"], spaces1,
      opt (inTurn [oneOf ["is", "to"], spaces1]),
      atLeast 16 (cls fun c => wordChar c || c == '+' || c == '/' || c == '-')]
     after := outside letter number },
   { before := outside letter number
     body := inTurn [lit "bearer", spaces1, atLeast 20 nonspace]
     after := none },
   { before := none
     body := inTurn [lit "-----BEGIN", .many (inTurn [lit " ", atLeast 1 (cls alnum)]),
      lit " PRIVATE KEY", opt (lit " BLOCK"), lit "-----"]
     after := none }]

/-- `SENSITIVE_PREFIXES` -/
def sensitiveTokens : List (Regex Char) :=
  [inTurn [lit "sk-", atLeast 20 (cls bodyChar)],
   inTurn [oneOf ["ghp_", "gho_", "github_pat_"], atLeast 36 (cls wordChar)],
   inTurn [lit "xox", cls fun c => c == 'b' || c == 'p', lit "-", atLeast 8 (cls digit), lit "-",
    atLeast 8 (cls digit), lit "-", opt (inTurn [atLeast 8 (cls digit), lit "-"]),
    atLeast 20 (cls alnum)],
   inTurn [lit "sg.", atLeast 16 (cls bodyChar), lit ".", atLeast 20 (cls bodyChar)],
   inTurn [lit "key_", oneOf ["live", "test"], lit "_", atLeast 20 (cls alnum)],
   inTurn [lit "eyj", atLeast 10 (cls bodyChar), lit ".", atLeast 1 (cls bodyChar), lit ".",
    atLeast 1 (cls bodyChar)],
   inTurn [lit "hv", cls fun c => c == 's' || c == 'b', lit ".", atLeast 16 (cls bodyChar)],
   inTurn [lit "npm_", atLeast 36 (cls alnum)],
   inTurn [lit "pypi-", atLeast 20 (cls bodyChar)],
   inTurn [lit "akia", times 16 (cls alnum)]]

/-- The token of a credential stands apart from other words. -/
def tokenSearch (body : Regex Char) : Search Char :=
  { before := outside letter number, body := body, after := outside letter number }

def sensitiveSearches : List (Search Char) :=
  sensitivePatterns letter number ++ sensitiveTokens.map (tokenSearch letter number)

def containsSensitive (fact : List Char) : Bool :=
  (sensitiveSearches letter number).any (·.finds fact)

end Classes

/-! ### What the shapes begin and end with -/

/-- Folding keeps to what `P` says of a class. -/
def FoldClosed (P : Char → Prop) : Prop :=
  ∀ p : Char → Bool, (∀ c, p c = true → P c) → ∀ c, fold p c = true → P c

def Blank (c : Char) : Prop := isWhitespace c = true

instance (c : Char) : Decidable (Blank c) := inferInstanceAs (Decidable (_ = true))

/-- Neither whitespace nor a dash. -/
def Inked (c : Char) : Prop := ¬ Blank c ∧ c ≠ '-'

instance (c : Char) : Decidable (Inked c) := inferInstanceAs (Decidable (_ ∧ _))

theorem isWhitespace_toUpper (c : Char) : isWhitespace c.toUpper = isWhitespace c := by
  rw [← isWhitespace_toLower, toLower_toUpper, isWhitespace_toLower]

theorem foldClosed_not_blank : FoldClosed fun c => ¬ Blank c := by
  intro p hp c hc hblank
  rw [fold, Bool.or_eq_true, Bool.or_eq_true, Bool.or_eq_true] at hc
  rcases hc with ((hc | hc) | hc) | hc
  · exact hp _ hc (by rwa [Blank, isWhitespace_toLower])
  · exact hp _ hc (by rwa [Blank, isWhitespace_toUpper])
  · obtain rfl := beq_iff_eq.mp (Bool.and_eq_true_iff.mp hc).1
    exact absurd hblank (by decide)
  · obtain rfl := beq_iff_eq.mp (Bool.and_eq_true_iff.mp hc).1
    exact absurd hblank (by decide)

theorem foldClosed_inked : FoldClosed Inked := by
  intro p hp c hc
  refine ⟨foldClosed_not_blank p (fun d hd => (hp d hd).1) c hc, ?_⟩
  rintro rfl
  have hdash : p '-' = true := by
    have hlower : ('-' : Char).toLower = '-' := by decide
    have hupper : ('-' : Char).toUpper = '-' := by decide
    simpa [fold, hlower, hupper] using hc
  exact (hp _ hdash).2 rfl

section Edges

variable {P : Char → Prop} {text : String} {texts : List String} {r : Regex Char}
  {rs : List (Regex Char)}

/-- A literal text is matched letter by letter. -/
theorem matches_lit {w : List Char} : Matches (lit text) w ↔
    List.Forall₂ (fun c d => fold (· == c) d = true) text.toList w := by
  rw [lit]
  generalize text.toList = s
  induction s generalizing w with
  | nil =>
    rw [List.forall₂_nil_left_iff]
    constructor
    · rintro ⟨⟩
      rfl
    · rintro rfl
      exact .empty
  | cons c s ih =>
    rw [List.foldr_cons, matches_seq, List.forall₂_cons_left_iff]
    constructor
    · rintro ⟨u, v, rfl, hu, hv⟩
      obtain ⟨d, hd, rfl⟩ := matches_one.mp hu
      exact ⟨d, v, hd, ih.mp hv, rfl⟩
    · rintro ⟨d, v, hd, hv, rfl⟩
      exact ⟨[d], v, rfl, .one hd, ih.mpr hv⟩

theorem firsts_lit [DecidablePred P] (hP : FoldClosed P)
    (h : text.toList.head?.all (P ·) = true) : (lit text).Firsts P := by
  rw [lit]
  cases htext : text.toList with
  | nil => trivial
  | cons c s =>
    rw [htext] at h
    refine ⟨hP _ fun d hd => ?_, nofun⟩
    obtain rfl := beq_iff_eq.mp hd
    exact of_decide_eq_true h

theorem lasts_lit [DecidablePred P] (hP : FoldClosed P)
    (h : text.toList.getLast?.all (P ·) = true) : (lit text).Lasts P := by
  rw [lit]
  generalize text.toList = s at h
  induction s with
  | nil => trivial
  | cons c s ih =>
    cases s with
    | nil =>
      refine ⟨trivial, fun _ => hP _ fun d hd => ?_⟩
      obtain rfl := beq_iff_eq.mp hd
      exact of_decide_eq_true h
    | cons d s =>
      rw [List.getLast?_cons_cons] at h
      exact ⟨ih h, nofun⟩

theorem firsts_oneOf [DecidablePred P] (hP : FoldClosed P)
    (h : (texts.all fun t => t.toList.head?.all (P ·)) = true) : (oneOf texts).Firsts P := by
  induction texts with
  | nil => exact fun c hc => absurd hc Bool.false_ne_true
  | cons t texts ih =>
    obtain ⟨ht, htexts⟩ := Bool.and_eq_true_iff.mp h
    exact ⟨firsts_lit hP ht, ih htexts⟩

theorem lasts_atLeast (n : ℕ) (h : r.Lasts P) : (atLeast n r).Lasts P := by
  induction n with
  | zero => exact h
  | succ n ih => exact ⟨ih, fun _ => h⟩

theorem lasts_times (n : ℕ) (h : r.Lasts P) : (times n r).Lasts P := by
  induction n with
  | zero => trivial
  | succ n ih => exact ⟨ih, fun _ => h⟩

theorem firsts_inTurn (h : r.Firsts P) (hnull : r.nullable = false) :
    (inTurn (r :: rs)).Firsts P :=
  ⟨h, fun htrue => by rw [hnull] at htrue; cases htrue⟩

/-- What comes last decides, if it is not empty. -/
theorem lasts_inTurn (hlast : rs.getLast? = some r) (h : r.Lasts P) (hnull : r.nullable = false) :
    (inTurn rs).Lasts P ∧ (inTurn rs).nullable = false := by
  induction rs with
  | nil => cases hlast
  | cons s rs ih =>
    cases rs with
    | nil =>
      obtain rfl : s = r := Option.some.inj hlast
      refine ⟨⟨trivial, fun _ => h⟩, ?_⟩
      show (s.nullable && true) = false
      rw [hnull, Bool.false_and]
    | cons t rs =>
      rw [List.getLast?_cons_cons] at hlast
      obtain ⟨hlasts, hnullable⟩ := ih hlast
      refine ⟨⟨hlasts, fun htrue => ?_⟩, ?_⟩
      · cases hnullable.symm.trans htrue
      · show (s.nullable && (inTurn (t :: rs)).nullable) = false
        rw [hnullable, Bool.and_false]

end Edges

/-- No match of the shape takes in the dash in front of a fact. -/
structure Fits (q : Search Char) : Prop where
  solid : q.Solid Blank
  dash (m : List Char) (h : Matches q.body ('-' :: m)) : m ≠ [] ∧ m.head? ≠ some ' '

section Fits

variable {letter number : Char → Bool}
  (hclasses : ∀ c, isWhitespace c = true → letter c = false ∧ number c = false)

theorem inked_of_alnum {c : Char} (h : c.isAlphanum = true) : Inked c := by
  have hrange := toNat_of_isAlphanum h
  constructor
  · rw [Blank, isWhitespace]
    simp only [Bool.or_eq_true, Bool.and_eq_true, decide_eq_true_eq, beq_iff_eq]
    omega
  · rintro rfl
    cases h

/-- Whitespace is no letter and no digit. -/
theorem blank_not_letter (c : Char) (h : isWhitespace c = true) :
    c.isAlpha = false ∧ c.isDigit = false := by
  rw [← Bool.or_eq_false_iff]
  exact Bool.eq_false_iff.mpr fun halnum => (inked_of_alnum halnum).1 h

theorem inked_wordChar {c : Char} (h : wordChar c = true) : Inked c := by
  rcases Bool.or_eq_true_iff.mp h with h | h
  · exact inked_of_alnum h
  · obtain rfl := beq_iff_eq.mp h
    decide

theorem not_blank_bodyChar {c : Char} (h : bodyChar c = true) : ¬ Blank c := by
  rcases Bool.or_eq_true_iff.mp h with h | h
  · exact (inked_wordChar h).1
  · obtain rfl := beq_iff_eq.mp h
    decide

theorem allows_behindWord {c : Char} (h : Blank c) : allows behindWord (some c) = true := by
  have hfold : fold wordChar c = false := by
    rw [Bool.eq_false_iff]
    exact fun hc => foldClosed_not_blank wordChar (fun d hd => (inked_wordChar hd).1) c hc h
  show (!fold wordChar c) = true
  rw [hfold]
  rfl

include hclasses in
theorem allows_outside {c : Char} (h : Blank c) :
    allows (outside letter number) (some c) = true := by
  obtain ⟨hletter, hnumber⟩ := hclasses c h
  have hother : c ≠ '_' ∧ c ≠ '-' := by
    constructor <;> rintro rfl <;> exact absurd h (by decide)
  show (!(letter c || number c || c == '_' || c == '-')) = true
  simp [hletter, hnumber, hother]

/-- A shape whose matches begin with ink and end with no whitespace. -/
theorem fits_of_inked {before after : Option (Char → Bool)} {body : Regex Char}
    (hfirst : body.Firsts Inked)
    (hlast : body.Lasts (fun c => ¬ Blank c) ∧ body.nullable = false)
    (hbefore : ∀ c, Blank c → allows before (some c) = true)
    (hafter : ∀ c, Blank c → allows after (some c) = true) :
    Fits { before := before, body := body, after := after } where
  solid := ⟨hlast.2, hfirst.mono fun _ h => h.1, hlast.1, hbefore, hafter⟩
  dash _ h := absurd rfl (h.first hfirst '-' rfl).2

theorem firsts_qualifier : qualifier.Firsts Inked :=
  firsts_inTurn (foldClosed_inked _ fun _ h => inked_of_alnum h) rfl

theorem lasts_nonspace : nonspace.Lasts fun c => ¬ Blank c := by
  intro c hc hblank
  have hspace : isWhitespace c = true := hblank
  have hnot : (!isWhitespace c) = true := hc
  rw [hspace] at hnot
  cases hnot

include hclasses in
theorem fits_sensitivePatterns : ∀ q ∈ sensitivePatterns letter number, Fits q := by
  have hword := fun c h => @allows_behindWord c h
  have hnone : ∀ c : Char, Blank c → allows none (some c) = true := fun _ _ => rfl
  have houtside := fun c h => @allows_outside letter number hclasses c h
  simp only [sensitivePatterns, List.forall_mem_cons]
  refine ⟨?_, ?_, ?_, ?_, ?_, ?_, by simp⟩
  · refine fits_of_inked ⟨firsts_qualifier, fun _ => firsts_inTurn ?_ rfl⟩
      (lasts_inTurn rfl lasts_nonspace rfl) hword hnone
    exact firsts_oneOf foldClosed_inked (by decide)
  · refine fits_of_inked (firsts_inTurn ?_ rfl) (lasts_inTurn rfl lasts_nonspace rfl) hword hnone
    exact firsts_oneOf foldClosed_inked (by decide)
  · refine fits_of_inked (firsts_inTurn ?_ rfl) (lasts_inTurn rfl ?_ rfl) hword hnone
    · exact firsts_oneOf foldClosed_inked (by decide)
    · -- the three forms of a value
      have hquote : ∀ text : String, text.toList.getLast? = some '"' ∨
          text.toList.getLast? = some '\'' → (lit text).Lasts fun c => ¬ Blank c := by
        intro text h
        refine lasts_lit foldClosed_not_blank ?_
        rcases h with h | h <;> rw [h] <;> decide
      refine ⟨(lasts_inTurn rfl (hquote "\"" (.inl (by decide))) rfl).1,
        (lasts_inTurn rfl (hquote "'" (.inr (by decide))) rfl).1, ?_⟩
      refine ⟨⟨⟨trivial, fun _ => lasts_nonspace⟩, fun _ c hc hblank => ?_⟩, nofun⟩
      have hspace : isWhitespace c = true := hblank
      have hother : (!(letter c || isWhitespace c)) = true := hc
      rw [hspace, Bool.or_true] at hother
      cases hother
  · refine fits_of_inked ⟨firsts_qualifier, fun _ => firsts_inTurn ?_ rfl⟩
      (lasts_inTurn rfl (lasts_atLeast 16 ?_) rfl) hword houtside
    · exact firsts_oneOf foldClosed_inked (by decide)
    · refine foldClosed_not_blank _ fun c hc => ?_
      rw [Bool.or_eq_true, Bool.or_eq_true, Bool.or_eq_true] at hc
      rcases hc with ((hc | hc) | hc) | hc
      · exact (inked_wordChar hc).1
      all_goals
        obtain rfl := beq_iff_eq.mp hc
        decide
  · refine fits_of_inked (firsts_inTurn ?_ rfl)
      (lasts_inTurn rfl (lasts_atLeast 20 lasts_nonspace) rfl) houtside hnone
    exact firsts_lit foldClosed_inked (by decide)
  · -- the one shape that begins with a dash goes on with another one
    have hlast := @lasts_inTurn (fun c => ¬ Blank c) (lit "-----")
      [lit "-----BEGIN", .many (inTurn [lit " ", atLeast 1 (cls alnum)]), lit " PRIVATE KEY",
        opt (lit " BLOCK"), lit "-----"] rfl (lasts_lit foldClosed_not_blank (by decide)) rfl
    refine ⟨⟨hlast.2, ?_, hlast.1, hnone, hnone⟩, fun m hm => ?_⟩
    · exact firsts_inTurn (firsts_lit foldClosed_not_blank (by decide)) rfl
    · obtain ⟨u, v, heq, hu, -⟩ := matches_seq.mp hm
      have htext : "-----BEGIN".toList = '-' :: '-' :: "---BEGIN".toList := by decide
      rw [matches_lit, htext] at hu
      obtain ⟨c, w, -, hw, rfl⟩ := List.forall₂_cons_left_iff.mp hu
      obtain ⟨d, w, hd, -, rfl⟩ := List.forall₂_cons_left_iff.mp hw
      obtain ⟨-, rfl⟩ := List.cons.inj heq
      refine ⟨List.cons_ne_nil _ _, fun hspace => ?_⟩
      obtain rfl := Option.some.inj hspace
      exact absurd hd (by decide)

include hclasses in
/-- The token of a credential, which stands apart from other words. -/
theorem fits_tokenSearch {first last : Regex Char} {rest : List (Regex Char)}
    (hfirst : first.Firsts Inked) (hnonempty : first.nullable = false)
    (hend : (first :: rest).getLast? = some last) (hlast : last.Lasts fun c => ¬ Blank c)
    (hnull : last.nullable = false) :
    Fits (tokenSearch letter number (inTurn (first :: rest))) :=
  fits_of_inked (firsts_inTurn hfirst hnonempty) (lasts_inTurn hend hlast hnull)
    (fun _ h => allows_outside hclasses h) fun _ h => allows_outside hclasses h

include hclasses in
theorem fits_sensitiveTokens :
    ∀ body ∈ sensitiveTokens, Fits (tokenSearch letter number body) := by
  have hbody := foldClosed_not_blank bodyChar fun _ h => not_blank_bodyChar h
  have hword := foldClosed_not_blank wordChar fun _ h => (inked_wordChar h).1
  have halnum := foldClosed_not_blank alnum fun _ h => (inked_of_alnum h).1
  -- each token begins with a text of its own and ends with a class of characters
  have hlit (text : String) (h : text.toList.head?.all (Inked ·) = true) :=
    @firsts_lit Inked text _ foldClosed_inked h
  simp only [sensitiveTokens, List.forall_mem_cons]
  refine ⟨?_, ?_, ?_, ?_, ?_, ?_, ?_, ?_, ?_, ?_, by simp⟩
  · exact fits_tokenSearch hclasses (hlit _ (by decide)) rfl rfl (lasts_atLeast 20 hbody) rfl
  · refine fits_tokenSearch hclasses ?_ rfl rfl (lasts_atLeast 36 hword) rfl
    exact firsts_oneOf foldClosed_inked (by decide)
  · exact fits_tokenSearch hclasses (hlit _ (by decide)) rfl rfl (lasts_atLeast 20 halnum) rfl
  · exact fits_tokenSearch hclasses (hlit _ (by decide)) rfl rfl (lasts_atLeast 20 hbody) rfl
  · exact fits_tokenSearch hclasses (hlit _ (by decide)) rfl rfl (lasts_atLeast 20 halnum) rfl
  · exact fits_tokenSearch hclasses (hlit _ (by decide)) rfl rfl (lasts_atLeast 1 hbody) rfl
  · exact fits_tokenSearch hclasses (hlit _ (by decide)) rfl rfl (lasts_atLeast 16 hbody) rfl
  · exact fits_tokenSearch hclasses (hlit _ (by decide)) rfl rfl (lasts_atLeast 36 halnum) rfl
  · exact fits_tokenSearch hclasses (hlit _ (by decide)) rfl rfl (lasts_atLeast 20 hbody) rfl
  · exact fits_tokenSearch hclasses (hlit _ (by decide)) rfl rfl (lasts_times 16 halnum) rfl

include hclasses in
theorem fits_sensitiveSearches : ∀ q ∈ sensitiveSearches letter number, Fits q := by
  intro q hq
  rcases List.mem_append.mp hq with hq | hq
  · exact fits_sensitivePatterns hclasses q hq
  · obtain ⟨body, hbody, rfl⟩ := List.mem_map.mp hq
    exact fits_sensitiveTokens hclasses body hbody

/-- What is trimmed off a fact and put around it does not matter to any shape. -/
theorem Fits.finds_itemLine {q : Search Char} (hq : Fits q) (s : List Char) :
    q.finds (itemLine (trimText s) ++ ['\n']) = q.finds s := by
  obtain ⟨front, back, hs, hfront, hback⟩ := exists_trimText s
  have hnewline : ∀ c ∈ ['\n'], Blank c := List.forall_mem_singleton.mpr (by decide)
  rw [hq.solid.finds_right hnewline, itemLine, hq.solid.finds_cons (by decide) hq.dash]
  conv_rhs => rw [hs]
  rw [hq.solid.finds_pad hfront hback]

include hclasses in
/-- The line of a fact is sensitive if and only if the fact is. -/
theorem containsSensitive_itemLine (s : List Char) :
    containsSensitive letter number (itemLine (trimText s) ++ ['\n']) =
      containsSensitive letter number s := by
  rw [containsSensitive, containsSensitive, Bool.eq_iff_iff, List.any_eq_true, List.any_eq_true]
  refine exists_congr fun q => and_congr_right fun hq => ?_
  rw [(fits_sensitiveSearches hclasses q hq).finds_itemLine]

end Fits

/-! ### What is queued and what is written -/

/-- The common part of `remember` and `forget`; the message of a refusal is an error. -/
def preparePrefOp (prefsPath : Option String) (input : Value)
    (extraCheck : String → Option String) : Except (String × Bool) (String × String) :=
  let fact := ((input.get "fact").bind Value.asStr).getD ""
  if fact = "" then .error ("Error: 'fact' parameter must not be empty.", true)
  else
    match extraCheck fact with
    | some msg => .error (msg, true)
    | none =>
      match prefsPath with
      | some path => .ok (fact, path)
      | none => .error ("Error: preference storage is not configured.", true)

/-- What a `remember` or `forget` call puts into the queue, or the message that refuses it. -/
def queuedChange (letter number : Char → Bool) (prefsPath : Option String)
    (kind : PrefChangeKind) (input : Value) : Except (String × Bool) PendingPrefChange := do
  let (fact, path) ← preparePrefOp prefsPath input fun fact =>
    if kind = .remember ∧ containsSensitive letter number fact.toList = true then
      some ("Error: preference rejected — it appears to contain sensitive data " ++
        "(passwords, tokens, keys). Preferences must not store secrets.")
    else none
  return { kind := kind, fact := fact, path := path }

section Queue

variable {letter number : Char → Bool} {nfc : List Char → List Char} {prefsPath : Option String}
  {input : Value} {kind : PrefChangeKind} {change : PendingPrefChange}
  {file : Option (List Char)} {fact t line : List Char}

theorem preparePrefOp_eq_ok {extraCheck : String → Option String} {fact path : String} :
    preparePrefOp prefsPath input extraCheck = .ok (fact, path) ↔
      ((input.get "fact").bind Value.asStr).getD "" = fact ∧ fact ≠ "" ∧ extraCheck fact = none ∧
        prefsPath = some path := by
  unfold preparePrefOp
  generalize ((input.get "fact").bind Value.asStr).getD "" = given
  by_cases hempty : given = ""
  · simp +contextual [hempty]
  cases hcheck : extraCheck given with
  | some msg =>
    have hrefused : ¬ (given = fact ∧ fact ≠ "" ∧ extraCheck fact = none ∧
        prefsPath = some path) := by
      rintro ⟨rfl, -, hnone, -⟩
      cases hcheck.symm.trans hnone
    simp [hempty, hcheck, hrefused]
  | none =>
    cases prefsPath with
    | none => simp [hempty, hcheck]
    | some p =>
      simp only [if_neg hempty, hcheck, Except.ok.injEq, Prod.mk.injEq, Option.some.injEq]
      constructor
      · rintro ⟨rfl, rfl⟩
        exact ⟨rfl, hempty, hcheck, rfl⟩
      · rintro ⟨rfl, -, -, rfl⟩
        exact ⟨rfl, rfl⟩

/-- What is queued passed the screen as it was. -/
theorem screened_of_queued (h : queuedChange letter number prefsPath kind input = .ok change) :
    change.kind = kind ∧
      (kind = .remember → containsSensitive letter number change.fact.toList = false) := by
  obtain ⟨⟨fact, path⟩, hprepared, h⟩ := exists_of_bind_eq_ok h
  obtain rfl := Except.ok.inj h
  obtain ⟨-, -, hcheck, -⟩ := preparePrefOp_eq_ok.mp hprepared
  refine ⟨rfl, fun hkind => ?_⟩
  by_contra hsensitive
  rw [Bool.not_eq_false] at hsensitive
  rw [if_pos ⟨hkind, hsensitive⟩] at hcheck
  cases hcheck

/-- What is written is as sensitive as the fact is as it reads. -/
theorem exists_written
    (hclasses : ∀ c, isWhitespace c = true → letter c = false ∧ number c = false)
    (hnewline : ∀ s, '\n' ∈ nfc s → '\n' ∈ s)
    (happlied : appendPref nfc file fact = .ok (some (file.getD [] ++ line))) (hline : line ≠ []) :
    ∃ t, ReadsAs nfc fact t ∧
      containsSensitive letter number line = containsSensitive letter number t := by
  rcases appendPref_spec happlied with ⟨f, hadds⟩ | ⟨hsame, -⟩
  · have hwritten := Except.ok.inj (happlied.symm.trans (appendPref_of_adds hadds))
    obtain rfl := List.append_cancel_left (Option.some.inj hwritten)
    obtain ⟨n, hn, rfl⟩ := hadds.normal
    have hfact : '\n' ∉ fact := fun hmem => hadds.single '\n' hmem (by decide)
    exact ⟨n, .of_normalised hnewline hn hfact, containsSensitive_itemLine hclasses n⟩
  · cases file with
    | none => cases hsame
    | some existing => exact absurd (List.append_right_eq_self.mp (Option.some.inj hsame)) hline

end Queue

end Sysknife.Brain
