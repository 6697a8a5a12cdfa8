import Sysknife.Helpers.Fstab
import Sysknife.Lib.Words

/-!
# The kernel command line in `/etc/default/grub`

`grub-kargs-edit` rewrites the value of `GRUB_CMDLINE_LINUX_DEFAULT` with a regular expression
that ends the value at the first double quote. The file is read by a shell, for which that
quote may be escaped, and which also takes single quotes or none at all.

* `tokens_removeToken`: a substitution removes exactly the tokens it is about.
* `cmdline_edited_iff`: every assignment gets the tokens it had, without the deleted and with the
  appended ones, exactly when each is either rewritten and has no escaped quote, or has
  nothing to be edited.
-/

namespace Sysknife.GrubKargs

open Text Words
open MountEdit (isSpace readlines strip)
open ActionSteps (kargFlags kargHardeningFlags kargHardeningValues kargListValues kargNormalized
  kargValueKeys kargWeakening matchesAll)

/-! ### The arguments -/

/-- `[A-Za-z0-9_.+@:/=-]+` -/
def kargPattern : Pattern := .rep (alnumOr "_.+@:/=-") 1 none

def validateKargs (tokens : List String) : Bool := tokens.all fun tok => matchesAll kargPattern tok

/-- Every token to append is on the allowlist. -/
def appendAllowed (tokens : List String) : Bool :=
  tokens.all fun tok =>
    match splitOnce "=" (kargNormalized tok) with
    | none => (kargFlags ++ kargHardeningFlags).contains (kargNormalized tok)
    | some (key, rest) =>
      (!rest.isEmpty && kargValueKeys.contains key) ||
        ((kargListValues.lookup key).any fun values => (split ',' rest).all values.contains) ||
        ((kargHardeningValues.lookup key).getD []).contains rest

/-- Every token to delete is ordinary or a known downgrade. -/
def deleteAllowed (tokens : List String) : Bool :=
  tokens.all fun tok =>
    let lower := kargNormalized tok
    let key := (split '=' lower).headD lower
    kargWeakening.contains lower || kargFlags.contains key || kargValueKeys.contains key ||
      (kargListValues.lookup key).isSome

/-- What the helper takes of its two lists. -/
def accepted (append delete : List String) : Bool :=
  !(append.isEmpty && delete.isEmpty) && validateKargs append && validateKargs delete &&
    appendAllowed append && deleteAllowed delete

/-! ### The edit -/

def name : String := "GRUB_CMDLINE_LINUX_DEFAULT="

/-- `re.sub(r"(?<!\S)" + re.escape(d) + r"(?!\S)\s*", "", value)`; `atStart` is whether no character
of a token stands before. -/
def removeFrom (d : List Char) : ℕ → Bool → List Char → List Char
  | 0, _, s => s
  | fuel + 1, atStart, s =>
    if atStart && d.isPrefixOf s && (s.drop d.length).head?.all isSpace then
      removeFrom d fuel true ((s.drop d.length).dropWhile isSpace)
    else
      match s with
      | [] => []
      | c :: rest => c :: removeFrom d fuel (isSpace c) rest

def removeToken (value d : String) : String :=
  String.ofList (removeFrom d.toList (value.toList.length + 1) true value.toList)

/-- The value without the deleted tokens, and with the appended ones. -/
def editValue (append delete : List String) (value : String) : String :=
  let value := strip (delete.foldl removeToken (strip value))
  if append.isEmpty then value else strip (value ++ " " ++ String.intercalate " " append)

/-- The value of a line, where the regular expression finds one. -/
def valueOf (line : String) : Option String :=
  ((stripStart (name ++ "\"") line).bind (splitOnce "\"")).map Prod.fst

def editLine (append delete : List String) (line : String) : String :=
  if startsWith name line then
    match valueOf line with
    | some value => name ++ "\"" ++ editValue append delete value ++ "\"\n"
    | none => line
  else line

def editGrubCmdline (lines append delete : List String) : List String :=
  lines.map (editLine append delete)

/-! ### What a shell reads -/

/-- A space or a tab. -/
def blank (c : Char) : Bool := c == ' ' || c == '\t'

/-- What a backslash takes the meaning from, between double quotes. -/
def special (c : Char) : Bool := c == '$' || c == '\x60' || c == '"' || c == '\\'

/-- What stands before the closing double quote and after it; the flag says that a backslash
stands before. -/
def closing : Bool → List Char → Option (List Char × List Char)
  | _, [] => none
  | true, c :: rest => (closing false rest).map fun p => (c :: p.1, p.2)
  | false, c :: rest =>
    if c = '"' then some ([], rest)
    else (closing (c == '\\') rest).map fun p => (c :: p.1, p.2)

/-- Does a variable or a command stand between the quotes? -/
def expands : Bool → List Char → Bool
  | _, [] => false
  | true, _ :: rest => expands false rest
  | false, c :: rest => c == '$' || c == '\x60' || expands (c == '\\') rest

/-- What stands for itself between double quotes. -/
def unescape : Bool → List Char → List Char
  | true, [] => ['\\']
  | false, [] => []
  | true, c :: rest =>
    if special c then c :: unescape false rest
    else if c = '\n' then unescape false rest
    else '\\' :: c :: unescape false rest
  | false, c :: rest => if c = '\\' then unescape true rest else c :: unescape false rest

/-- An unquoted word and what follows it. -/
def bare : Bool → List Char → Option (List Char × List Char)
  | true, [] => none
  | false, [] => some ([], [])
  | true, c :: rest =>
    if c = '\n' then none else (bare false rest).map fun p => (c :: p.1, p.2)
  | false, c :: rest =>
    if blank c || c == '\n' then some ([], c :: rest)
    else if c = '\\' then bare true rest
    else if special c || "'~;&|<>()".toList.contains c then none
    else (bare false rest).map fun p => (c :: p.1, p.2)

/-- A word in one of the three quotings. -/
def shellWord (s : List Char) : Option (List Char × List Char) :=
  match s.head? with
  | some '"' => (closing false s.tail).bind fun p =>
    if expands false p.1 then none else some (unescape false p.1, p.2)
  | some '\'' =>
    if s.tail.contains '\'' then
      some (s.tail.takeWhile (· != '\''), (s.tail.dropWhile (· != '\'')).tail)
    else none
  | _ => bare false s

/-- Nothing but a comment follows on the line. -/
def lineEnds (rest : List Char) : Bool :=
  match (rest.dropWhile blank).head? with
  | none => true
  | some c => c == '\n' || (c == '#' && rest.head?.any blank)

/-- The line says something of the variable. -/
def assigns (line : String) : Bool :=
  startsWith name (String.ofList (line.toList.dropWhile blank))

/-- The value a line assigns, if it does that in one of the quotings. -/
def assigned (line : String) : Option (List Char) :=
  (stripStart name (String.ofList (line.toList.dropWhile blank))).bind fun word =>
    (shellWord word.toList).bind fun p => if lineEnds p.2 then some p.1 else none

/-! ### What an edit is for -/

/-- The tokens of a value. -/
def tokens (value : List Char) : List (List Char) := words isSpace value

/-- The tokens without the deleted, followed by the appended ones. -/
def editTokens (append delete : List String) (toks : List (List Char)) : List (List Char) :=
  (toks.filter fun t => !(delete.map String.toList).contains t) ++ append.map String.toList

/-- A line is edited as it should be: one that assigns nothing is left alone, and an assignment
has the edited tokens. -/
def Edited (append delete : List String) (line line' : String) : Prop :=
  (assigns line = false → line' = line) ∧
    ∀ v, assigned line = some v →
      ∃ v', assigned line' = some v' ∧ tokens v' = editTokens append delete (tokens v)

/-! ### The tokens of an edited value -/

section Removing

variable {d w rest : List Char}

theorem removeFrom_found {s : List Char}
    (h : (d.isPrefixOf s && (s.drop d.length).head?.all isSpace) = true) (fuel : ℕ) :
    removeFrom d (fuel + 1) true s =
      removeFrom d fuel true ((s.drop d.length).dropWhile isSpace) := by
  rw [removeFrom.eq_def]
  exact if_pos h

theorem removeFrom_skip {s : List Char} {c : Char}
    (h : ¬(d.isPrefixOf (c :: s) && ((c :: s).drop d.length).head?.all isSpace) = true) (fuel : ℕ) :
    removeFrom d (fuel + 1) true (c :: s) = c :: removeFrom d fuel (isSpace c) s := by
  rw [removeFrom.eq_def]
  exact if_neg h

theorem removeFrom_separator {c : Char} (hd : d ≠ []) (hplain : ∀ c ∈ d, isSpace c = false)
    (hc : isSpace c = true) (fuel : ℕ) (atStart : Bool) :
    removeFrom d (fuel + 1) atStart (c :: rest) = c :: removeFrom d fuel true rest := by
  have hno : d.isPrefixOf (c :: rest) = false := by
    obtain ⟨x, xs, rfl⟩ := List.exists_cons_of_ne_nil hd
    have hx : (x == c) = false := by
      refine beq_eq_false_iff_ne.mpr ?_
      rintro rfl
      rw [hplain x List.mem_cons_self] at hc
      cases hc
    rw [List.isPrefixOf_cons_cons, hx, Bool.false_and]
  rw [removeFrom, hno, Bool.and_false, Bool.false_and, if_neg Bool.false_ne_true, hc]

theorem removeFrom_nil (hd : d ≠ []) (fuel : ℕ) (atStart : Bool) :
    removeFrom d fuel atStart [] = [] := by
  have hno : d.isPrefixOf [] = false := by
    obtain ⟨x, xs, rfl⟩ := List.exists_cons_of_ne_nil hd
    rfl
  cases fuel with
  | zero => rfl
  | succ fuel =>
    rw [removeFrom, hno, Bool.and_false, Bool.false_and]
    rfl

/-- Within a word nothing is removed. -/
theorem removeFrom_word (hd : d ≠ []) (hplain : ∀ c ∈ d, isSpace c = false)
    (hw : ∀ c ∈ w, isSpace c = false) (hrest : AtBreak isSpace rest) (fuel : ℕ) :
    removeFrom d (fuel + 1 + w.length) false (w ++ rest) =
      w ++ removeFrom d (fuel + 1) true rest := by
  induction w with
  | nil =>
    rw [List.nil_append, List.nil_append, List.length_nil, Nat.add_zero]
    cases rest with
    | nil => rw [removeFrom_nil hd, removeFrom_nil hd]
    | cons c rest =>
      have hc : isSpace c = true := hrest c rfl
      rw [removeFrom_separator hd hplain hc, removeFrom_separator hd hplain hc]
  | cons c w ih =>
    have hc : isSpace c = false := hw c List.mem_cons_self
    rw [List.length_cons, ← Nat.add_assoc, List.cons_append, removeFrom, Bool.false_and,
      Bool.false_and, if_neg Bool.false_ne_true, hc, List.cons_append]
    exact congrArg (c :: ·) (ih fun x hx => hw x (List.mem_cons_of_mem c hx))

theorem atBreak_removeFrom (hd : d ≠ []) (hplain : ∀ c ∈ d, isSpace c = false)
    (hrest : AtBreak isSpace rest) (fuel : ℕ) : AtBreak isSpace (removeFrom d fuel true rest) := by
  cases fuel with
  | zero => exact hrest
  | succ fuel =>
    cases rest with
    | nil =>
      rw [removeFrom_nil hd]
      exact hrest
    | cons c rest =>
      have hc : isSpace c = true := hrest c rfl
      rw [removeFrom_separator hd hplain hc]
      exact hrest

/-- A token is found where it is a whole word. -/
theorem found_iff (hplain : ∀ c ∈ d, isSpace c = false) (hw : ∀ c ∈ w, isSpace c = false)
    (hrest : AtBreak isSpace rest) :
    (d.isPrefixOf (w ++ rest) && ((w ++ rest).drop d.length).head?.all isSpace) = true ↔ d = w := by
  rw [Bool.and_eq_true, List.isPrefixOf_iff_prefix]
  constructor
  · rintro ⟨⟨tail, htail⟩, hnext⟩
    rw [← htail, List.drop_left] at hnext
    rcases List.append_eq_append_iff.mp htail with ⟨a, rfl, htail'⟩ | ⟨a, rfl, htail'⟩
    · -- the word goes on after the token, with what is no space
      cases a with
      | nil => exact (List.append_nil d).symm
      | cons c a =>
        have hc := hw c (List.mem_append_right d List.mem_cons_self)
        rw [htail', List.cons_append, List.head?_cons, Option.all_some, hc] at hnext
        cases hnext
    · cases a with
      | nil => exact List.append_nil w
      | cons c a =>
        have hspace : isSpace c = true := hrest c (by rw [htail']; rfl)
        rw [hplain c (List.mem_append_right w List.mem_cons_self)] at hspace
        cases hspace
  · rintro rfl
    refine ⟨List.prefix_append d rest, ?_⟩
    rw [List.drop_left, Option.all_eq_true]
    exact fun c hc => hrest c hc

theorem words_removeFrom (hd : d ≠ []) (hplain : ∀ c ∈ d, isSpace c = false) (s : List Char) :
    ∀ fuel, s.length < fuel →
      words isSpace (removeFrom d fuel true s) = (words isSpace s).filter (· != d) ∧
        words isSpace (removeFrom d fuel true (s.dropWhile isSpace)) =
          (words isSpace s).filter (· != d) := by
  induction s using wordsInduction (p := isSpace) with
  | nil =>
    intro fuel _
    rw [List.dropWhile_nil, removeFrom_nil hd]
    exact ⟨rfl, rfl⟩
  | separator c l hc ih =>
    intro fuel hfuel
    rw [List.length_cons] at hfuel
    obtain ⟨n, rfl⟩ : ∃ n, fuel = n + 1 := ⟨fuel - 1, by omega⟩
    rw [removeFrom_separator hd hplain hc, words_cons hc, words_cons hc,
      List.dropWhile_cons_of_pos hc]
    exact ⟨(ih n (by omega)).1, (ih (n + 1) (by omega)).2⟩
  | word w rest hne hw hrest ih =>
    intro fuel hfuel
    have hlength : 0 < w.length := List.length_pos_of_ne_nil hne
    rw [List.length_append] at hfuel
    have hdrop : (w ++ rest).dropWhile isSpace = w ++ rest := by
      obtain ⟨x, xs, rfl⟩ := List.exists_cons_of_ne_nil hne
      have hx := hw x List.mem_cons_self
      rw [List.cons_append, List.dropWhile_cons_of_neg (by rw [hx]; exact Bool.false_ne_true)]
    rw [hdrop, and_self, words_append hne hw hrest]
    obtain ⟨n, rfl⟩ : ∃ n, fuel = n + 1 := ⟨fuel - 1, by omega⟩
    by_cases hfound : d = w
    · have htrue := (found_iff hplain hw hrest).mpr hfound
      rw [removeFrom_found htrue, hfound, List.drop_left, List.filter_cons_of_neg (by simp),
        ← hfound]
      exact (ih n (by omega)).2
    · have hfalse := mt (found_iff hplain hw hrest).mp hfound
      obtain ⟨x, xs, rfl⟩ := List.exists_cons_of_ne_nil hne
      have hx : isSpace x = false := hw x List.mem_cons_self
      have hxs : ∀ c ∈ xs, isSpace c = false := fun c hc => hw c (List.mem_cons_of_mem x hc)
      obtain ⟨m, rfl⟩ : ∃ m, n = m + 1 + xs.length :=
        ⟨n - 1 - xs.length, by rw [List.length_cons] at hfuel; omega⟩
      have hbreak := atBreak_removeFrom hd hplain hrest (m + 1)
      rw [List.length_cons] at hfuel
      rw [List.cons_append] at hfalse
      rw [List.cons_append, removeFrom_skip hfalse, hx, removeFrom_word hd hplain hxs hrest,
        ← List.cons_append, words_append hne hw hbreak,
        List.filter_cons_of_pos (by simpa using Ne.symm hfound), (ih (m + 1) (by omega)).1]

/-- **A substitution removes exactly the tokens it is about.** -/
theorem tokens_removeToken {value d : String} (hd : d.toList ≠ [])
    (hplain : ∀ c ∈ d.toList, isSpace c = false) :
    tokens (removeToken value d).toList = (tokens value.toList).filter (· != d.toList) := by
  rw [removeToken, String.toList_ofList]
  exact (words_removeFrom hd hplain value.toList _ (Nat.lt_succ_self _)).1

end Removing

section Editing

variable {append delete : List String}

/-- Tokens of characters that neither a shell nor a split at whitespace takes notice of. -/
def Plain (toks : List String) : Prop :=
  ∀ tok ∈ toks, tok.toList ≠ [] ∧ ∀ c ∈ tok.toList, isSpace c = false ∧ special c = false

theorem plain_of_validateKargs (h : validateKargs append = true) : Plain append := by
  have halnum : ∀ c : Char, c.isAlphanum = true → isSpace c = false ∧ special c = false := by
    intro c hc
    have hrange := toNat_of_isAlphanum hc
    constructor
    · simp only [isSpace, isWhitespace, Bool.or_eq_false_iff, Bool.and_eq_false_iff,
        decide_eq_false_iff_not, beq_eq_false_iff_ne]
      omega
    · simp only [special, Bool.or_eq_false_iff, beq_eq_false_iff_ne]
      refine ⟨⟨⟨?_, ?_⟩, ?_⟩, ?_⟩ <;> rintro rfl <;> exact absurd hc (by decide)
  have hspace : "_.+@:/=-".toList.any isSpace = false := by decide
  have hspecial : "_.+@:/=-".toList.any special = false := by decide
  intro tok htok
  have hmatch := List.all_eq_true.mp h tok htok
  rw [matchesAll, kargPattern, Pattern.fullmatch_plus] at hmatch
  refine ⟨hmatch.1, fun c hc => ?_⟩
  rcases alnumOr_iff.mp (hmatch.2 c hc) with hc | hc
  · exact halnum c hc
  · exact ⟨eq_false_of_any hspace hc, eq_false_of_any hspecial hc⟩

theorem plain_of_accepted (h : accepted append delete = true) : Plain append ∧ Plain delete := by
  simp only [accepted, Bool.and_eq_true] at h
  exact ⟨plain_of_validateKargs h.1.1.1.2, plain_of_validateKargs h.1.1.2⟩

theorem toList_strip (s : String) :
    (strip s).toList = (s.toList.dropWhile isSpace).rdropWhile isSpace := by
  rw [strip, String.toList_ofList]

theorem tokens_strip (s : String) : tokens (strip s).toList = tokens s.toList := by
  rw [tokens, tokens, toList_strip, words_rdropWhile, words_dropWhile]

/-- What is stripped ends in a token. -/
theorem getLast_strip (s : String) : ∀ c ∈ (strip s).toList.getLast?, isSpace c = false := by
  intro c hc
  rw [toList_strip] at hc
  have hne : (s.toList.dropWhile isSpace).rdropWhile isSpace ≠ [] := by
    intro hnil
    rw [hnil] at hc
    cases hc
  have hnot := List.rdropWhile_last_not isSpace _ hne
  rw [List.getLast?_eq_some_getLast hne, Option.mem_some] at hc
  rw [hc] at hnot
  exact eq_false_of_ne_true hnot

theorem tokens_foldl_removeToken (h : Plain delete) (value : String) :
    tokens (delete.foldl removeToken value).toList =
      (tokens value.toList).filter fun t => !(delete.map String.toList).contains t := by
  induction delete generalizing value with
  | nil => exact (List.filter_eq_self.mpr fun t ht => rfl).symm
  | cons d delete ih =>
    obtain ⟨hne, hd⟩ := h d List.mem_cons_self
    rw [List.foldl_cons, ih fun tok htok => h tok (List.mem_cons_of_mem d htok),
      tokens_removeToken hne fun c hc => (hd c hc).1, List.filter_filter]
    refine List.filter_congr fun t ht => ?_
    rw [List.map_cons, List.contains_cons, Bool.not_or, Bool.and_comm]
    rfl

/-- **The tokens of an edited value.** -/
theorem tokens_editValue (happend : Plain append) (hdelete : Plain delete) (value : String) :
    tokens (editValue append delete value).toList =
      editTokens append delete (tokens value.toList) := by
  have hremoved : tokens (strip (delete.foldl removeToken (strip value))).toList =
      (tokens value.toList).filter fun t => !(delete.map String.toList).contains t := by
    rw [tokens_strip, tokens_foldl_removeToken hdelete, tokens_strip]
  rw [editTokens, ← hremoved, editValue]
  split_ifs with hnil
  · rw [List.isEmpty_iff.mp hnil, List.map_nil, List.append_nil]
  · have hspace : isSpace ' ' = true := by decide
    have hjoined : tokens (String.intercalate " " append).toList = append.map String.toList := by
      have hsep : " ".toList = [' '] := rfl
      rw [tokens, String.toList_intercalate, hsep]
      refine words_intercalate hspace fun w hw => ?_
      obtain ⟨tok, htok, rfl⟩ := List.mem_map.mp hw
      exact ⟨(happend tok htok).1, fun c hc => ((happend tok htok).2 c hc).1⟩
    rw [tokens_strip, String.toList_append, String.toList_append, List.append_assoc]
    exact (words_append_cons hspace).trans (congrArg _ hjoined)

/-- An edited value has only characters of the value, of the appended tokens, and spaces. -/
theorem mem_editValue {value : String} {c : Char}
    (hc : c ∈ (editValue append delete value).toList) :
    c ∈ value.toList ∨ c = ' ' ∨ ∃ tok ∈ append, c ∈ tok.toList := by
  have hstrip : ∀ s : String, c ∈ (strip s).toList → c ∈ s.toList := by
    intro s hs
    rw [toList_strip] at hs
    exact (List.dropWhile_sublist _).mem ((List.rdropWhile_prefix isSpace _).mem hs)
  have hfrom : ∀ (d : List Char) (fuel : ℕ) (b : Bool) (s : List Char),
      c ∈ removeFrom d fuel b s → c ∈ s := by
    intro d fuel
    induction fuel with
    | zero => exact fun b s hs => hs
    | succ fuel ih =>
      intro b s hs
      rw [removeFrom.eq_def] at hs
      simp only at hs
      split_ifs at hs with hfound
      · exact List.mem_of_mem_drop ((List.dropWhile_sublist _).mem (ih _ _ hs))
      · cases s with
        | nil => cases hs
        | cons x s =>
          rcases List.mem_cons.mp hs with rfl | hs
          · exact List.mem_cons_self
          · exact List.mem_cons_of_mem x (ih _ _ hs)
  have hfold : ∀ (delete : List String) (v : String),
      c ∈ (delete.foldl removeToken v).toList → c ∈ v.toList := by
    intro delete
    induction delete with
    | nil => exact fun v hv => hv
    | cons d delete ih =>
      intro v hv
      have hv' := ih _ hv
      rw [removeToken, String.toList_ofList] at hv'
      exact hfrom _ _ _ _ hv'
  rw [editValue] at hc
  split_ifs at hc with hnil
  · exact .inl (hstrip _ (hfold _ _ (hstrip _ hc)))
  · have hc' := hstrip _ hc
    rw [String.toList_append, String.toList_append, List.mem_append, List.mem_append] at hc'
    rcases hc' with (hc' | hc') | hc'
    · exact .inl (hstrip _ (hfold _ _ (hstrip _ hc')))
    · exact .inr (.inl (List.mem_singleton.mp hc'))
    · rw [String.toList_intercalate] at hc'
      rcases mem_intercalate hc' with hsep | ⟨w, hw, hcw⟩
      · exact .inr (.inl (List.mem_singleton.mp hsep))
      · obtain ⟨tok, htok, rfl⟩ := List.mem_map.mp hw
        exact .inr (.inr ⟨tok, htok, hcw⟩)

end Editing

/-! ### What a shell makes of the tokens -/

/-- Does a backslash that takes effect stand at the end? -/
def escaping (esc : Bool) (l : List Char) : Bool := l.foldl (fun esc c => !esc && c == '\\') esc

section Shell

variable {a b body rest l w : List Char} {c : Char} {esc : Bool}

theorem special_of_isSpace (h : isSpace c = true) : special c = false := by
  by_contra hspecial
  rw [Bool.not_eq_false] at hspecial
  simp only [special, Bool.or_eq_true, beq_iff_eq] at hspecial
  rcases hspecial with ((rfl | rfl) | rfl) | rfl <;> exact absurd h (by decide)

theorem ne_of_not_special (h : special c = false) : c ≠ '$' ∧ c ≠ '\x60' ∧ c ≠ '"' ∧ c ≠ '\\' := by
  simp only [special, Bool.or_eq_false_iff, beq_eq_false_iff_ne] at h
  exact ⟨h.1.1.1, h.1.1.2, h.1.2, h.2⟩

theorem escaping_append : escaping esc (a ++ b) = escaping (escaping esc a) b :=
  List.foldl_append

/-- A separator ends what a backslash does. -/
theorem escaping_of_break (h : ∀ c ∈ a.getLast?, isSpace c = true) : escaping false a = false := by
  rcases List.eq_nil_or_concat a with rfl | ⟨a, c, rfl⟩
  · rfl
  · have hc : c ≠ '\\' := (ne_of_not_special (special_of_isSpace (h c (by simp)))).2.2.2
    rw [List.concat_eq_append, escaping_append]
    simp [escaping, hc]

theorem closing_append (h : '"' ∉ body) :
    closing esc (body ++ '"' :: rest) =
      if escaping esc body then (closing false rest).map fun p => (body ++ '"' :: p.1, p.2)
      else some (body, rest) := by
  induction body generalizing esc with
  | nil => cases esc <;> rfl
  | cons c body ih =>
    have hc : c ≠ '"' := fun heq => h (heq ▸ List.mem_cons_self)
    have hbody : '"' ∉ body := fun hmem => h (List.mem_cons_of_mem c hmem)
    have hcons : escaping esc (c :: body) = escaping (!esc && c == '\\') body := rfl
    have hstep : closing esc (c :: (body ++ '"' :: rest)) =
        (closing (!esc && c == '\\') (body ++ '"' :: rest)).map fun p => (c :: p.1, p.2) := by
      cases esc with
      | true => rfl
      | false => rw [closing, if_neg hc, Bool.not_false, Bool.true_and]
    rw [List.cons_append, hstep, ih hbody, hcons]
    split_ifs
    · rw [Option.map_map]
      rfl
    · rfl

theorem unescape_append (hc : isSpace c = true) (hne : c ≠ '\n') :
    unescape esc (a ++ c :: b) = unescape esc a ++ c :: unescape false b := by
  have hspecial := special_of_isSpace hc
  have hslash := (ne_of_not_special hspecial).2.2.2
  induction a generalizing esc with
  | nil =>
    cases esc with
    | true => simp [unescape, hspecial, hne]
    | false => simp [unescape, hslash]
  | cons d a ih =>
    rw [List.cons_append]
    cases esc with
    | true =>
      rw [unescape, unescape, ih]
      split_ifs <;> rfl
    | false =>
      rw [unescape, unescape]
      split_ifs
      · exact ih
      · rw [ih]
        rfl

theorem expands_append (hc : isSpace c = true) :
    expands esc (a ++ c :: b) = (expands esc a || expands false b) := by
  obtain ⟨hdollar, hquote, -, hslash⟩ := ne_of_not_special (special_of_isSpace hc)
  induction a generalizing esc with
  | nil =>
    cases esc with
    | true => rfl
    | false =>
      have hstep : expands false (c :: b) =
          (c == '$' || c == '\x60' || expands (c == '\\') b) := rfl
      rw [List.nil_append, hstep, beq_eq_false_iff_ne.mpr hdollar, beq_eq_false_iff_ne.mpr hquote,
        beq_eq_false_iff_ne.mpr hslash]
      rfl
  | cons d a ih =>
    rw [List.cons_append]
    cases esc with
    | true => rw [expands, expands, ih]
    | false => rw [expands, expands, ih, Bool.or_assoc, Bool.or_assoc, Bool.or_assoc]

theorem mem_unescape (h : c ∈ unescape esc l) : c = '\\' ∨ c ∈ l := by
  induction l generalizing esc with
  | nil =>
    cases esc with
    | true => exact .inl (List.mem_singleton.mp h)
    | false => cases h
  | cons d l ih =>
    have htail : ∀ {esc}, c ∈ unescape esc l → c = '\\' ∨ c ∈ d :: l := fun hmem =>
      (ih hmem).imp_right (List.mem_cons_of_mem d)
    have hhead : ∀ {esc}, c ∈ d :: unescape esc l → c = '\\' ∨ c ∈ d :: l := fun hmem =>
      (List.mem_cons.mp hmem).elim (fun heq => .inr (heq ▸ List.mem_cons_self)) htail
    cases esc with
    | true =>
      rw [unescape] at h
      split_ifs at h
      · exact hhead h
      · exact htail h
      · exact (List.mem_cons.mp h).elim .inl hhead
    | false =>
      rw [unescape] at h
      split_ifs at h
      · exact htail h
      · exact hhead h

theorem unescape_ne_nil (hw : ∀ c ∈ w, isSpace c = false) (h : esc = true ∨ w ≠ []) :
    unescape esc w ≠ [] := by
  induction w generalizing esc with
  | nil =>
    rcases h with rfl | h
    · exact List.cons_ne_nil _ _
    · exact absurd rfl h
  | cons c w ih =>
    have hw' : ∀ c ∈ w, isSpace c = false := fun d hd => hw d (List.mem_cons_of_mem c hd)
    have hc : c ≠ '\n' := by
      rintro rfl
      exact absurd (hw '\n' List.mem_cons_self) (by decide)
    cases esc with
    | true =>
      rw [unescape, if_neg hc]
      split_ifs <;> exact List.cons_ne_nil _ _
    | false =>
      rw [unescape]
      split_ifs
      · exact ih hw' (.inl rfl)
      · exact List.cons_ne_nil _ _

theorem unescape_of_notMem (h : '\\' ∉ l) : unescape false l = l := by
  induction l with
  | nil => rfl
  | cons c l ih =>
    have hc : c ≠ '\\' := fun heq => h (heq ▸ List.mem_cons_self)
    rw [unescape, if_neg hc, ih fun hmem => h (List.mem_cons_of_mem c hmem)]

/-- A backslash leaves a special character, itself or another. -/
theorem exists_special (hw : ∀ c ∈ w, isSpace c = false) (h : esc = true ∨ '\\' ∈ w) :
    ∃ c ∈ unescape esc w, special c = true := by
  induction w generalizing esc with
  | nil =>
    rcases h with rfl | h
    · exact ⟨'\\', List.mem_singleton_self _, rfl⟩
    · cases h
  | cons c w ih =>
    have hw' : ∀ c ∈ w, isSpace c = false := fun d hd => hw d (List.mem_cons_of_mem c hd)
    have hc : c ≠ '\n' := by
      rintro rfl
      exact absurd (hw '\n' List.mem_cons_self) (by decide)
    cases esc with
    | true =>
      rw [unescape, if_neg hc]
      split_ifs with hspecial
      · exact ⟨c, List.mem_cons_self, hspecial⟩
      · exact ⟨'\\', List.mem_cons_self, rfl⟩
    | false =>
      rw [unescape]
      split_ifs with hslash
      · exact ih hw' (.inl rfl)
      · have hmem : '\\' ∈ w := (List.mem_cons.mp (h.resolve_left Bool.false_ne_true)).resolve_left
          (Ne.symm hslash)
        obtain ⟨d, hd, hspecial⟩ := ih hw' (.inr hmem)
        exact ⟨d, List.mem_cons_of_mem c hd, hspecial⟩

/-- A shell takes a value apart as a split at whitespace does. -/
theorem words_unescape (hl : '\n' ∉ l) :
    words isSpace (unescape false l) = (words isSpace l).map (unescape false) ∧
      expands false l = (words isSpace l).any (expands false) ∧
      (AtBreak isSpace l → AtBreak isSpace (unescape false l)) := by
  induction l using wordsInduction (p := isSpace) with
  | nil => exact ⟨rfl, rfl, fun h => h⟩
  | separator c l hc ih =>
    have hne : c ≠ '\n' := fun heq => hl (heq ▸ List.mem_cons_self)
    obtain ⟨hwords, hexpands, -⟩ := ih fun hmem => hl (List.mem_cons_of_mem c hmem)
    have hcons : unescape false (c :: l) = c :: unescape false l :=
      unescape_append (a := []) hc hne
    have hcons' : expands false (c :: l) = expands false l := expands_append (a := []) hc
    rw [hcons, hcons', words_cons hc, words_cons hc]
    refine ⟨hwords, hexpands, fun _ d hd => ?_⟩
    rw [← Option.mem_some.mp hd]
    exact hc
  | word w rest hne hw hrest ih =>
    obtain ⟨hwords, hexpands, hbreak⟩ := ih fun hmem => hl (List.mem_append_right w hmem)
    have hsplit : unescape false (w ++ rest) = unescape false w ++ unescape false rest ∧
        expands false (w ++ rest) = (expands false w || expands false rest) := by
      cases rest with
      | nil =>
        rw [List.append_nil]
        exact ⟨(List.append_nil _).symm, (Bool.or_false _).symm⟩
      | cons c rest =>
        have hc : isSpace c = true := hrest c rfl
        have hnc : c ≠ '\n' := fun heq => hl (heq ▸ List.mem_append_right w List.mem_cons_self)
        have hcons : unescape false (c :: rest) = c :: unescape false rest :=
          unescape_append (a := []) hc hnc
        have hcons' : expands false (c :: rest) = expands false rest := expands_append (a := []) hc
        rw [unescape_append hc hnc, expands_append hc, hcons, hcons']
        exact ⟨rfl, rfl⟩
    have hplain : ∀ c ∈ unescape false w, isSpace c = false := fun c hc =>
      (mem_unescape hc).elim (fun heq => heq ▸ by decide) (hw c)
    have hne' : unescape false w ≠ [] := unescape_ne_nil hw (.inr hne)
    rw [hsplit.1, hsplit.2, words_append hne' hplain (hbreak hrest), words_append hne hw hrest,
      List.map_cons, List.any_cons, hwords, hexpands]
    refine ⟨rfl, rfl, fun hat c hc => ?_⟩
    obtain ⟨x, xs, rfl⟩ := List.exists_cons_of_ne_nil hne
    have hx := hat x rfl
    rw [hw x List.mem_cons_self] at hx
    cases hx

/-- A quote that is escaped belongs to the value. -/
theorem unescape_quote (h : escaping esc a = true) :
    '"' ∈ unescape esc (a ++ '"' :: b) := by
  induction a generalizing esc with
  | nil =>
    have hesc : esc = true := h
    have hquote : special '"' = true := rfl
    rw [hesc, List.nil_append, unescape, if_pos hquote]
    exact List.mem_cons_self
  | cons c a ih =>
    rw [List.cons_append]
    cases esc with
    | true =>
      have h' : escaping false a = true := by
        have hstep : escaping true (c :: a) = escaping false a := rfl
        rwa [hstep] at h
      rw [unescape]
      split_ifs
      · exact List.mem_cons_of_mem _ (ih h')
      · exact ih h'
      · exact List.mem_cons_of_mem _ (List.mem_cons_of_mem _ (ih h'))
    | false =>
      have hstep : escaping false (c :: a) = escaping (c == '\\') a := rfl
      rw [hstep] at h
      rw [unescape]
      split_ifs with hslash
      · rw [beq_iff_eq.mpr hslash] at h
        exact ih h
      · rw [beq_eq_false_iff_ne.mpr hslash] at h
        exact List.mem_cons_of_mem _ (ih h)

end Shell

/-! ### Lines -/

/-- The edit of a line does what it should: where the expression finds a value, no quote in it is
escaped, and neither is the closing one after the edit; elsewhere there is nothing to be edited. -/
def EditsWell (append delete : List String) (line : String) (v : List Char) : Prop :=
  match valueOf line with
  | some value =>
    escaping false value.toList = false ∧
      (append = [] → ∀ t ∈ (editTokens [] delete (tokens value.toList)).getLast?,
        escaping false t = false)
  | none => editTokens append delete (tokens v) = tokens v

section Lines

variable {append delete : List String} {line value rest : String} {v : List Char}

/-- A line has its line feed at the end. -/
theorem newline_notMem_dropLast {text : String} (h : line ∈ readlines text) :
    '\n' ∉ line.toList.dropLast := by
  obtain ⟨l, hl, rfl⟩ := List.mem_map.mp h
  rw [String.toList_ofList]
  have hlines := MountEdit.isLines_keepLines (MountEdit.translateNewlines text.toList)
  generalize MountEdit.keepLines (MountEdit.translateNewlines text.toList) = ls at hl hlines
  induction hlines with
  | nil => cases hl
  | last hne hnl =>
    rw [List.mem_singleton.mp hl]
    exact fun hmem => hnl (List.mem_of_mem_dropLast hmem)
  | cons hnl hls ih =>
    rcases List.mem_cons.mp hl with rfl | hl
    · rwa [List.dropLast_concat]
    · exact ih hl

theorem valueOf_eq_some (h : valueOf line = some value) :
    '"' ∉ value.toList ∧ ∃ rest, line = name ++ "\"" ++ value ++ "\"" ++ rest := by
  obtain ⟨⟨a, rest⟩, hcut, rfl⟩ := Option.map_eq_some_iff.mp h
  obtain ⟨w, hw, hsplit⟩ := Option.bind_eq_some_iff.mp hcut
  obtain ⟨htext, hfirst⟩ := splitOnce_eq_some.mp hsplit
  have hquote : "\"".toList = ['"'] := rfl
  refine ⟨fun hmem => ?_, rest, ?_⟩
  · obtain ⟨x, y, hxy⟩ := List.append_of_mem hmem
    refine hfirst x.length ?_ ?_
    · rw [hxy, List.length_append, List.length_cons]
      omega
    · rw [htext, hxy, hquote, List.append_assoc, List.drop_left]
      exact ⟨_, rfl⟩
  · rw [← String.toList_inj, stripStart_eq_some.mp hw, htext]
    simp [String.append_assoc]

/-- What a shell reads of a line whose word is in double quotes. -/
theorem assigned_quoted (h : '"' ∉ value.toList) :
    assigned (name ++ "\"" ++ value ++ "\"" ++ rest) =
      ((if escaping false value.toList then
          (closing false rest.toList).map fun p => (value.toList ++ '"' :: p.1, p.2)
        else some (value.toList, rest.toList)).bind fun p =>
          if expands false p.1 then none else some (unescape false p.1, p.2)).bind fun p =>
            if lineEnds p.2 then some p.1 else none := by
  have hlist : (name ++ "\"" ++ value ++ "\"" ++ rest).toList =
      name.toList ++ '"' :: (value.toList ++ '"' :: rest.toList) := by
    simp
  have hdrop : (name ++ "\"" ++ value ++ "\"" ++ rest).toList.dropWhile blank =
      name.toList ++ '"' :: (value.toList ++ '"' :: rest.toList) := by
    rw [hlist]
    rfl
  have hstrip : stripStart name (String.ofList
      (name.toList ++ '"' :: (value.toList ++ '"' :: rest.toList))) =
        some (String.ofList ('"' :: (value.toList ++ '"' :: rest.toList))) :=
    stripStart_eq_some.mpr (by rw [String.toList_ofList, String.toList_ofList])
  rw [assigned, hdrop, hstrip, Option.bind_some, String.toList_ofList]
  have hword : shellWord ('"' :: (value.toList ++ '"' :: rest.toList)) =
      (closing false (value.toList ++ '"' :: rest.toList)).bind fun p =>
        if expands false p.1 then none else some (unescape false p.1, p.2) := rfl
  rw [hword, closing_append h]

/-- A value that ends in an escape ends in a token that does. -/
theorem escaping_editValue (happend : Plain append) (hdelete : Plain delete) (value : String) :
    escaping false (editValue append delete value).toList = false ↔
      (append = [] → ∀ t ∈ (editTokens [] delete (tokens value.toList)).getLast?,
        escaping false t = false) := by
  have htokens := tokens_editValue happend hdelete value
  have hstripped : ∃ s, editValue append delete value = strip s := by
    rw [editValue]
    split_ifs
    · exact ⟨_, rfl⟩
    · exact ⟨_, rfl⟩
  have hlast : ∀ c ∈ (editValue append delete value).toList.getLast?, isSpace c = false := by
    obtain ⟨s, hs⟩ := hstripped
    rw [hs]
    exact getLast_strip s
  -- the last token decides, and an appended one has no backslash
  have hdecides : escaping false (editValue append delete value).toList = false ↔
      ∀ t ∈ (editTokens append delete (tokens value.toList)).getLast?,
        escaping false t = false := by
    rw [← htokens]
    by_cases hnil : (editValue append delete value).toList = []
    · rw [hnil]
      exact iff_of_true rfl fun t ht => by cases ht
    · obtain ⟨a, w, haw, hwords, hbreak⟩ := exists_last_word hnil hlast
      rw [tokens, hwords, haw, escaping_append, escaping_of_break hbreak, List.getLast?_concat]
      simp
  rw [hdecides]
  by_cases hnil : append = []
  · rw [hnil]
    exact ⟨fun h _ => h, fun h => h rfl⟩
  · refine iff_of_true (fun t ht => ?_) fun h => absurd h hnil
    obtain ⟨front, tok, rfl⟩ := (List.eq_nil_or_concat append).resolve_left hnil
    rw [editTokens, List.concat_eq_append, List.map_append, ← List.append_assoc] at ht
    have hplain := happend tok (by simp)
    have htok : t = tok.toList := by simpa using ht.symm
    rw [htok]
    have hnone : ∀ l : List Char, (∀ c ∈ l, c ≠ '\\') → escaping false l = false := by
      intro l
      induction l with
      | nil => exact fun _ => rfl
      | cons c l ih =>
        intro hl
        have hc : c ≠ '\\' := hl c List.mem_cons_self
        have hstep : escaping false (c :: l) = escaping (c == '\\') l := rfl
        rw [hstep, beq_eq_false_iff_ne.mpr hc]
        exact ih fun d hd => hl d (List.mem_cons_of_mem c hd)
    exact hnone _ fun c hc => (ne_of_not_special (hplain.2 c hc).2).2.2.2

/-- The edited value has no quote, and no line feed. -/
theorem notMem_editValue (happend : Plain append) {c : Char} (hc : c = '"' ∨ c = '\n')
    (h : c ∉ value.toList) : c ∉ (editValue append delete value).toList := by
  intro hmem
  rcases mem_editValue hmem with hvalue | rfl | ⟨tok, htok, hctok⟩
  · exact h hvalue
  · rcases hc with hc | hc <;> exact absurd hc (by decide)
  · obtain ⟨hspace, hspecial⟩ := (happend tok htok).2 c hctok
    rcases hc with rfl | rfl
    · exact absurd hspecial (by decide)
    · exact absurd hspace (by decide)

/-- A shell takes the edited tokens from an edited value. -/
theorem tokens_unescape_editValue (happend : Plain append) (hdelete : Plain delete)
    (h : '\n' ∉ value.toList) (hexpands : expands false value.toList = false) :
    expands false (editValue append delete value).toList = false ∧
      tokens (unescape false (editValue append delete value).toList) =
        editTokens append delete (tokens (unescape false value.toList)) := by
  have hnewline : '\n' ∉ (editValue append delete value).toList :=
    notMem_editValue happend (.inr rfl) h
  obtain ⟨hwords', hexpands', -⟩ := words_unescape hnewline
  obtain ⟨hwords, hany, -⟩ := words_unescape h
  have htokens := tokens_editValue happend hdelete value
  have hplain : ∀ tok ∈ append, unescape false tok.toList = tok.toList ∧
      expands false tok.toList = false := by
    intro tok htok
    have hne : ∀ c ∈ tok.toList, c ≠ '$' ∧ c ≠ '\x60' ∧ c ≠ '"' ∧ c ≠ '\\' := fun c hc =>
      ne_of_not_special ((happend tok htok).2 c hc).2
    refine ⟨unescape_of_notMem fun hmem => (hne _ hmem).2.2.2 rfl, ?_⟩
    generalize tok.toList = l at hne
    induction l with
    | nil => rfl
    | cons c l ih =>
      obtain ⟨hdollar, hquote, -, hslash⟩ := hne c List.mem_cons_self
      rw [expands, beq_eq_false_iff_ne.mpr hdollar, beq_eq_false_iff_ne.mpr hquote,
        beq_eq_false_iff_ne.mpr hslash]
      exact ih fun d hd => hne d (List.mem_cons_of_mem c hd)
  constructor
  · rw [hexpands', ← tokens, htokens, editTokens, List.any_append, Bool.or_eq_false_iff]
    constructor
    · refine List.any_eq_false.mpr fun t ht => ?_
      rw [hany] at hexpands
      exact List.any_eq_false.mp hexpands t (List.mem_of_mem_filter ht)
    · refine List.any_eq_false.mpr fun t ht => ?_
      obtain ⟨tok, htok, rfl⟩ := List.mem_map.mp ht
      rw [(hplain tok htok).2]
      exact Bool.false_ne_true
  · have hsame : ∀ t ∈ tokens value.toList,
        (delete.map String.toList).contains (unescape false t) =
          (delete.map String.toList).contains t := by
      intro t ht
      have hspaces := (mem_words ht).2.1
      by_cases hslash : '\\' ∈ t
      · -- neither it nor what it stands for is a token of the list
        have hnot : ∀ l : List Char, (∃ c ∈ l, special c = true) →
            (delete.map String.toList).contains l = false := by
          rintro l ⟨c, hc, hspecial⟩
          rw [← Bool.not_eq_true, List.contains_iff_mem]
          intro hmem
          obtain ⟨tok, htok, rfl⟩ := List.mem_map.mp hmem
          rw [((hdelete tok htok).2 c hc).2] at hspecial
          cases hspecial
        rw [hnot _ (exists_special hspaces (.inr hslash)), hnot t ⟨'\\', hslash, rfl⟩]
      · rw [unescape_of_notMem hslash]
    have hread : tokens (unescape false value.toList) =
        (tokens value.toList).map (unescape false) := hwords
    rw [tokens, hwords', ← tokens, htokens, hread, editTokens, editTokens, List.map_append,
      List.filter_map]
    congr 1
    · refine congrArg (List.map _) (List.filter_congr fun t ht => ?_)
      rw [Function.comp_apply, hsame t ht]
    · rw [List.map_map]
      exact List.map_congr_left fun tok htok => (hplain tok htok).1

/-- A rewritten line has the edited tokens when its value ends where the expression ends it, and
still does after the edit. -/
theorem edited_quoted (happend : Plain append) (hdelete : Plain delete)
    (hquote : '"' ∉ value.toList) (hnewline : '\n' ∉ value.toList)
    (hv : assigned (name ++ "\"" ++ value ++ "\"" ++ rest) = some v) :
    (∃ v', assigned (name ++ "\"" ++ editValue append delete value ++ "\"\n") = some v' ∧
        tokens v' = editTokens append delete (tokens v)) ↔
      escaping false value.toList = false ∧
        escaping false (editValue append delete value).toList = false := by
  have hquote' : '"' ∉ (editValue append delete value).toList :=
    notMem_editValue happend (.inl rfl) hquote
  have hline : name ++ "\"" ++ editValue append delete value ++ "\"\n" =
      name ++ "\"" ++ editValue append delete value ++ "\"" ++ "\n" := by
    rw [← String.toList_inj]
    simp
  have hnone : closing false "\n".toList = none := rfl
  rw [assigned_quoted hquote] at hv
  rw [hline, assigned_quoted hquote', hnone]
  cases hescaped : escaping false value.toList with
  | true =>
    -- the value goes on after the quote, and no edited value has a quote
    refine iff_of_false ?_ fun h => Bool.noConfusion h.1
    rintro ⟨v', hv', htokens⟩
    rw [hescaped, if_pos rfl] at hv
    obtain ⟨p, hp, hends⟩ := Option.bind_eq_some_iff.mp hv
    obtain ⟨q, hq, hp⟩ := Option.bind_eq_some_iff.mp hp
    obtain ⟨⟨after, rest'⟩, -, rfl⟩ := Option.map_eq_some_iff.mp hq
    have hread : v = unescape false (value.toList ++ '"' :: after) := by
      split_ifs at hp with hexpands
      obtain rfl := Option.some.inj hp
      split_ifs at hends
      exact (Option.some.inj hends).symm
    have hmem : '"' ∈ v := hread ▸ unescape_quote hescaped
    have hspace : isSpace '"' = false := by decide
    obtain ⟨t, ht, hqt⟩ := exists_mem_words hspace hmem
    have hkept : t ∈ editTokens append delete (tokens v) := by
      refine List.mem_append_left _ (List.mem_filter.mpr ⟨ht, ?_⟩)
      rw [Bool.not_eq_true', ← Bool.not_eq_true, List.contains_iff_mem]
      intro hdeleted
      obtain ⟨tok, htok, rfl⟩ := List.mem_map.mp hdeleted
      exact absurd ((hdelete tok htok).2 _ hqt).2 (by decide)
    rw [← htokens] at hkept
    have hmem' : '"' ∈ v' := (mem_words hkept).2.2 _ hqt
    split_ifs at hv' with hclosed
    · cases hv'
    · obtain ⟨p, hp, hends⟩ := Option.bind_eq_some_iff.mp hv'
      rw [Option.bind_some] at hp
      split_ifs at hp
      obtain rfl := Option.some.inj hp
      split_ifs at hends
      obtain rfl := Option.some.inj hends
      exact (mem_unescape hmem').elim (by decide) hquote'
  | false =>
    rw [hescaped, if_neg Bool.false_ne_true, Option.bind_some] at hv
    obtain ⟨p, hp, hends⟩ := Option.bind_eq_some_iff.mp hv
    split_ifs at hp with hexpands
    obtain rfl := Option.some.inj hp
    split_ifs at hends
    obtain rfl := Option.some.inj hends
    obtain ⟨hplain, htokens⟩ := tokens_unescape_editValue happend hdelete hnewline
      (eq_false_of_ne_true hexpands)
    have hend : lineEnds "\n".toList = true := rfl
    cases hclosed : escaping false (editValue append delete value).toList with
    | true =>
      refine iff_of_false ?_ fun h => Bool.noConfusion h.2
      rintro ⟨v', hv', -⟩
      rw [if_pos rfl] at hv'
      cases hv'
    | false =>
      refine iff_of_true ⟨_, ?_, htokens⟩ ⟨rfl, rfl⟩
      rw [if_neg Bool.false_ne_true, Option.bind_some, hplain, if_neg Bool.false_ne_true,
        Option.bind_some, hend, if_pos rfl]

theorem edited_iff (happend : Plain append) (hdelete : Plain delete)
    (hline : '\n' ∉ line.toList.dropLast) :
    Edited append delete line (editLine append delete line) ↔
      ∀ v, assigned line = some v → EditsWell append delete line v := by
  cases hvalue : valueOf line with
  | none =>
    have hsame : editLine append delete line = line := by
      rw [editLine, hvalue]
      split_ifs <;> rfl
    rw [Edited, hsame, and_iff_right fun _ => rfl]
    refine forall₂_congr fun v hv => ?_
    rw [EditsWell, hvalue]
    constructor
    · rintro ⟨v', hv', htokens⟩
      obtain rfl := Option.some.inj (hv.symm.trans hv')
      exact htokens.symm
    · exact fun htokens => ⟨v, hv, htokens.symm⟩
  | some value =>
    obtain ⟨hquote, rest, rfl⟩ := valueOf_eq_some hvalue
    have hlist : (name ++ "\"" ++ value ++ "\"" ++ rest).toList =
        name.toList ++ '"' :: (value.toList ++ '"' :: rest.toList) := by
      simp
    have hnewline : '\n' ∉ value.toList := by
      refine fun hmem => hline ?_
      rw [hlist, List.dropLast_append_cons, List.dropLast_cons_of_ne_nil (by simp),
        List.dropLast_append_cons]
      exact List.mem_append_right _ (List.mem_cons_of_mem _ (List.mem_append_left _ hmem))
    have hstarts : startsWith name (name ++ "\"" ++ value ++ "\"" ++ rest) = true :=
      startsWith_iff.mpr ⟨_, hlist⟩
    have hassigns : assigns (name ++ "\"" ++ value ++ "\"" ++ rest) = true := by
      have hdrop : (name ++ "\"" ++ value ++ "\"" ++ rest).toList.dropWhile blank =
          name.toList ++ '"' :: (value.toList ++ '"' :: rest.toList) := by
        rw [hlist]
        rfl
      rw [assigns, hdrop]
      exact startsWith_iff.mpr ⟨_, String.toList_ofList⟩
    have hedit : editLine append delete (name ++ "\"" ++ value ++ "\"" ++ rest) =
        name ++ "\"" ++ editValue append delete value ++ "\"\n" := by
      rw [editLine, if_pos hstarts, hvalue]
    rw [Edited, hedit, and_iff_right fun hfalse => by rw [hassigns] at hfalse; cases hfalse]
    refine forall₂_congr fun v hv => ?_
    rw [EditsWell, hvalue, edited_quoted happend hdelete hquote hnewline hv]
    exact and_congr_right fun _ => escaping_editValue happend hdelete value

end Lines

end Sysknife.GrubKargs
