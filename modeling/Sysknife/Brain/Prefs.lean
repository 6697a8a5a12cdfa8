import Sysknife.Brain.Envelope
import Sysknife.Lib.Lines
import Mathlib.Data.List.DropRight

/-!
# Saved preferences

A preference is a line `- fact` of a file that its owner may edit as well. `append_pref`,
`remove_pref` and `read_prefs` each normalise text on their own: the fact that is passed, each
line that is compared, and the file as a whole. A file is its text, or `none` if it is absent.

* `appendPref_spec`, `removePref_of_found`: what the operations do, on the lines of the file.
* `normalise_shown`: what `read_prefs` shows of a line is normal already.
* `storeLaws_iff`: **when the laws of the store hold.** A line that is not terminated takes the new
  one in, a line that ends in a carriage return loses it, and what is shown may stand in no line.
-/

namespace Sysknife.Brain

open Slices Marks

def prefsMaxBytes : ℕ := 10240

/-- What a store operation ends in, if it does not return. -/
inductive PrefError
  | panic (p : Panic)
  | other (message : String)
  deriving DecidableEq, Repr

def lineBreaks : List Char := ['\n', '\r', '\u0085', '\u2028', '\u2029']

/-- `str::lines` -/
def textLines (s : List Char) : List (List Char) := Lines.lines '\n' '\r' s

/-- `str::trim` -/
def trimText (s : List Char) : List Char := (s.dropWhile isWhitespace).rdropWhile isWhitespace

/-- The line of a fact. -/
def itemLine (fact : List Char) : List Char := '-' :: ' ' :: fact

/-- `line.strip_prefix("- ")` -/
def stripItem : List Char → Option (List Char)
  | '-' :: ' ' :: stored => some stored
  | _ => none

section Store

variable (nfc : List Char → List Char)

/-- Is this the line of a fact, after normalisation? -/
def isItem (fact line : List Char) : Except Panic Bool :=
  match stripItem line with
  | none => .ok false
  | some stored => do
    let stored ← normalisePreferences nfc stored
    return trimText stored == fact

/-- `lines.any(..)` -/
def anyItem (fact : List Char) : List (List Char) → Except Panic Bool
  | [] => .ok false
  | line :: lines => do
    if ← isItem nfc fact line then return true else anyItem fact lines

/-- `lines.filter(..)`, and whether anything was filtered out. -/
def filterItems (fact : List Char) : List (List Char) → Except Panic (Bool × List (List Char))
  | [] => .ok (false, [])
  | line :: lines => do
    let isFact ← isItem nfc fact line
    let (found, kept) ← filterItems fact lines
    return if isFact then (true, kept) else (found, line :: kept)

def readPrefs : Option (List Char) → Except Panic (Option (List Char))
  | none => .ok none
  | some content => do
    let content ← normalisePreferences nfc content
    return if trimText content = [] then none else some content

def orPanic {α : Type} : Except Panic α → Except PrefError α
  | .ok a => .ok a
  | .error p => .error (.panic p)

/-- The file afterwards. -/
def appendPref (file : Option (List Char)) (fact : List Char) :
    Except PrefError (Option (List Char)) :=
  if fact.any lineBreaks.contains then .error (.other "preference must be a single line")
  else do
    let fact ← orPanic (normalisePreferences nfc fact)
    let fact := trimText fact
    if fact = [] then .error (.other "preference is empty after normalisation")
    else
      let existing := file.getD []
      if ← orPanic (anyItem nfc fact (textLines existing)) then return file
      else
        let newLine := itemLine fact ++ ['\n']
        if prefsMaxBytes < size existing + size newLine then
          .error (.other ("preferences file exceeds size limit (10240 bytes); " ++
            "remove unused preferences before adding new ones"))
        else return some (existing ++ newLine)

/-- Whether the fact was found, and the file afterwards. -/
def removePref (file : Option (List Char)) (fact : List Char) :
    Except Panic (Bool × Option (List Char)) :=
  match file with
  | none => .ok (false, none)
  | some content => do
    let fact ← normalisePreferences nfc fact
    let fact := trimText fact
    let (found, filtered) ← filterItems nfc fact (textLines content)
    if !found then return (false, file)
    else if filtered.isEmpty then return (true, some [])
    else return (true, some (['\n'].intercalate filtered ++ ['\n']))

inductive PrefChangeKind
  | remember
  | forget
  deriving DecidableEq, Repr

/-- A change the model asked for while it planned, not yet written. -/
structure PendingPrefChange where
  kind : PrefChangeKind
  fact : String
  path : String
  deriving DecidableEq, Repr

/-- Write the change. `false` means that there was nothing to forget. -/
def PendingPrefChange.apply (change : PendingPrefChange) (file : Option (List Char)) :
    Except PrefError (Bool × Option (List Char)) :=
  match change.kind with
  | .remember => do return (true, ← appendPref nfc file change.fact.toList)
  | .forget => orPanic (removePref nfc file change.fact.toList)

end Store

/-! ### The lines of a file -/

/-- The lines of a file; an absent one has none. -/
def fileLines (file : Option (List Char)) : List (List Char) := textLines (file.getD [])

theorem stripItem_eq_some {line stored : List Char} :
    stripItem line = some stored ↔ line = itemLine stored := by
  unfold stripItem itemLine
  split <;> simp_all

theorem trimText_infix_self (s : List Char) : trimText s <:+: s :=
  (List.rdropWhile_prefix isWhitespace _).isInfix.trans (List.dropWhile_suffix isWhitespace).isInfix

/-- What is left of a text ends in no whitespace. -/
theorem getLast?_trimText {s : List Char} {c : Char} (h : (trimText s).getLast? = some c) :
    isWhitespace c = false := by
  have hne : trimText s ≠ [] := by
    intro hempty
    rw [hempty] at h
    cases h
  have hlast : ¬ isWhitespace ((trimText s).getLast hne) = true :=
    List.rdropWhile_last_not isWhitespace _ hne
  rw [List.getLast?_eq_getLast_of_ne_nil hne, Option.some.injEq] at h
  rw [h] at hlast
  simpa using hlast

/-- What is trimmed off is whitespace. -/
theorem exists_trimText (s : List Char) : ∃ front back, s = front ++ (trimText s ++ back) ∧
    (∀ c ∈ front, isWhitespace c = true) ∧ ∀ c ∈ back, isWhitespace c = true := by
  refine ⟨s.takeWhile isWhitespace, (s.dropWhile isWhitespace).rtakeWhile isWhitespace, ?_,
    List.all_eq_true.mp List.all_takeWhile, fun c hc => List.mem_rtakeWhile_imp hc⟩
  rw [trimText, List.rdropWhile_append_rtakeWhile, List.takeWhile_append_dropWhile]

/-- Only whitespace is trimmed to nothing. -/
theorem isWhitespace_of_trimText {s : List Char} (h : trimText s = []) :
    ∀ c ∈ s, isWhitespace c = true := by
  intro c hc
  rw [← @List.takeWhile_append_dropWhile _ isWhitespace s, List.mem_append] at hc
  rcases hc with hc | hc
  · exact List.all_eq_true.mp List.all_takeWhile c hc
  · exact List.rdropWhile_eq_nil_iff.mp h c hc

theorem head?_trimText {s : List Char} {c : Char} (h : (trimText s).head? = some c) :
    isWhitespace c = false := by
  obtain ⟨t, ht⟩ := List.rdropWhile_prefix isWhitespace (s.dropWhile isWhitespace)
  have hhead : (s.dropWhile isWhitespace).head? = some c := by
    rw [trimText] at h
    rw [← ht, List.head?_append, h, Option.some_or]
  have hnot := List.head?_dropWhile_not isWhitespace s
  rw [hhead] at hnot
  simpa using hnot

theorem trimText_eq_self {s : List Char} (hhead : ∀ c ∈ s.head?, isWhitespace c = false)
    (hlast : ∀ c ∈ s.getLast?, isWhitespace c = false) : trimText s = s := by
  have hdrop : s.dropWhile isWhitespace = s := by
    cases s with
    | nil => rfl
    | cons c s => simp [hhead c rfl]
  rw [trimText, hdrop, List.rdropWhile_eq_self_iff]
  intro hne
  simp [hlast _ (List.getLast?_eq_getLast_of_ne_nil hne)]

theorem trimText_trimText (s : List Char) : trimText (trimText s) = trimText s :=
  trimText_eq_self (fun _ h => head?_trimText h) (fun _ h => getLast?_trimText h)

section Lines

variable {nfc : List Char → List Char} {fact : List Char} {ls : List (List Char)}

theorem anyItem_eq_false : anyItem nfc fact ls = .ok false ↔
    ∀ line ∈ ls, isItem nfc fact line = .ok false := by
  induction ls with
  | nil => simp [anyItem]
  | cons line ls ih =>
    rw [anyItem, List.forall_mem_cons, ← ih]
    cases hline : isItem nfc fact line with
    | error p => simp [Except.bind, bind]
    | ok b =>
      cases b with
      | true =>
        have hpure : (pure true : Except Panic Bool) = .ok true := rfl
        simp [ok_bind, hpure]
      | false => simp [ok_bind]

/-- A line behind those of other facts. -/
theorem anyItem_concat {line : List Char} (h : ∀ line ∈ ls, isItem nfc fact line = .ok false) :
    anyItem nfc fact (ls ++ [line]) = isItem nfc fact line := by
  induction ls with
  | nil =>
    rw [List.nil_append, anyItem]
    cases isItem nfc fact line with
    | error p => rfl
    | ok b => cases b <;> rfl
  | cons l ls ih =>
    obtain ⟨hl, hls⟩ := List.forall_mem_cons.mp h
    rw [List.cons_append, anyItem, hl, ok_bind, if_neg Bool.false_ne_true, ih hls]

theorem exists_of_anyItem (h : anyItem nfc fact ls = .ok true) :
    ∃ line ∈ ls, isItem nfc fact line = .ok true := by
  induction ls with
  | nil => cases h
  | cons line ls ih =>
    rw [anyItem] at h
    obtain ⟨b, hb, h⟩ := exists_of_bind_eq_ok h
    cases b with
    | true => exact ⟨line, List.mem_cons_self, hb⟩
    | false =>
      obtain ⟨other, hother, hitem⟩ := ih (by simpa using h)
      exact ⟨other, List.mem_cons_of_mem line hother, hitem⟩

/-- Every line can be normalised. -/
def Decided (nfc : List Char → List Char) (fact : List Char) (ls : List (List Char)) : Prop :=
  ∀ line ∈ ls, ∃ b, isItem nfc fact line = .ok b

/-- The lines of other facts. -/
def others (nfc : List Char → List Char) (fact : List Char) (ls : List (List Char)) :
    List (List Char) :=
  ls.filter fun line => isItem nfc fact line = .ok false

theorem decided_of_filterItems {r : Bool × List (List Char)} (h : filterItems nfc fact ls = .ok r) :
    Decided nfc fact ls := by
  induction ls generalizing r with
  | nil => exact fun line hline => absurd hline List.not_mem_nil
  | cons line ls ih =>
    obtain ⟨b, hb, h⟩ := exists_of_bind_eq_ok h
    obtain ⟨rest, hrest, -⟩ := exists_of_bind_eq_ok h
    exact List.forall_mem_cons.mpr ⟨⟨b, hb⟩, ih hrest⟩

theorem filterItems_of_decided (h : Decided nfc fact ls) : filterItems nfc fact ls =
    .ok (decide (∃ line ∈ ls, isItem nfc fact line = .ok true), others nfc fact ls) := by
  induction ls with
  | nil => simp [filterItems, others]
  | cons line ls ih =>
    obtain ⟨⟨b, hb⟩, hls⟩ := List.forall_mem_cons.mp h
    rw [filterItems, hb, ok_bind, ih hls, ok_bind]
    cases b with
    | true =>
      simp [others, hb]
      rfl
    | false =>
      simp [others, hb]
      rfl

end Lines

/-! ### Normal texts -/

/-- A text that normalisation leaves alone, but for its blank lines. -/
structure Normal (nfc : List Char → List Char) (s : List Char) : Prop where
  visible : Visible s
  form : nfc s = s
  untagged : Untagged s

/-- `t` is how `s` reads: its escape sequences and what does not show are gone, the rest is in
normal form, and the tags of the envelopes are broken in it. -/
def ReadsAs (nfc : List Char → List Char) (s t : List Char) : Prop :=
  ∃ r, Strips s r ∧ t = neutraliseEnvelopeTags (nfc (stripDangerousUnicode r))

section Normal

variable {nfc : List Char → List Char} {s t raw n : List Char}

theorem Normal.part (hnfc : NormalForm nfc) (h : Normal nfc s) (hts : t <:+: s) :
    Normal nfc t := by
  obtain ⟨a, b, rfl⟩ := hts
  exact ⟨fun c hc => h.visible c (by simp [hc]), hnfc.right (hnfc.left h.form),
    fun v hv hin => h.untagged v hv (hin.trans ⟨a, b, rfl⟩)⟩

/-- What normalisation returns is normal. -/
theorem normal_of_normalised (hnfc : NormalForm nfc)
    (hkept : ∀ s, ∀ c ∈ nfc s, dangerous c = true → c ∈ s)
    (h : normalisePreferences nfc raw = .ok n) : Normal nfc n := by
  obtain ⟨stripped, -, h⟩ := exists_of_bind_eq_ok h
  obtain rfl := Except.ok.inj h
  have hvisible := visible_normalised hkept stripped
  exact ⟨visible_collapse (visible_neutralise hvisible),
    hnfc.collapse (hnfc.neutralise (hnfc.idem _)), untagged_collapse (untagged_neutralise _)⟩

/-- A normal text of one line is normalised already. -/
theorem normalise_of_normal (h : Normal nfc s) (hline : '\n' ∉ s) :
    normalisePreferences nfc s = .ok s := by
  have hescape : escape ∉ s := fun hc => absurd (h.visible escape hc) (by decide)
  rw [normalisePreferences, normaliseUnboundedText,
    stripAnsi_eq_ok_iff.mpr (strips_self hescape), ok_bind, strip_of_visible h.visible, h.form,
    neutralise_of_untagged h.untagged, collapseBlankRuns, collapseFrom_of_notMem hline]
  rfl

theorem normalise_eq_ok_iff : normalisePreferences nfc raw = .ok n ↔
    ∃ t, ReadsAs nfc raw t ∧ n = collapseBlankRuns t := by
  constructor
  · intro h
    obtain ⟨stripped, hstripped, h⟩ := exists_of_bind_eq_ok h
    obtain rfl := Except.ok.inj h
    exact ⟨_, ⟨stripped, stripAnsi_eq_ok_iff.mp hstripped, rfl⟩, rfl⟩
  · rintro ⟨t, ⟨r, hr, rfl⟩, rfl⟩
    rw [normalisePreferences, normaliseUnboundedText, stripAnsi_eq_ok_iff.mpr hr, ok_bind]
    rfl

theorem ReadsAs.unique (hs : ReadsAs nfc raw s) (ht : ReadsAs nfc raw t) : s = t := by
  obtain ⟨r, hr, rfl⟩ := hs
  obtain ⟨r', hr', rfl⟩ := ht
  have heq := (stripAnsi_eq_ok_iff.mpr hr).symm.trans (stripAnsi_eq_ok_iff.mpr hr')
  obtain rfl := Except.ok.inj heq
  rfl

/-- A text of one line reads as one line. -/
theorem ReadsAs.newline_notMem (hnewline : ∀ s, '\n' ∈ nfc s → '\n' ∈ s)
    (h : ReadsAs nfc raw t) (hraw : '\n' ∉ raw) : '\n' ∉ t := by
  obtain ⟨r, hr, rfl⟩ := h
  intro hmem
  have hedits : ∀ edit ∈ tagEdits, '\n' ∉ edit.2 := by decide
  rw [neutraliseEnvelopeTags_eq] at hmem
  rcases mem_replaceEach hmem with hnormalised | ⟨edit, hedit, hc⟩
  · have hleft := List.mem_of_mem_filter (hnewline _ hnormalised)
    exact hraw (hr.sublist.subset hleft)
  · exact hedits edit hedit hc

/-- A text of one line is normalised to what it reads as. -/
theorem ReadsAs.of_normalised (hnewline : ∀ s, '\n' ∈ nfc s → '\n' ∈ s)
    (h : normalisePreferences nfc raw = .ok n) (hraw : '\n' ∉ raw) : ReadsAs nfc raw n := by
  obtain ⟨t, ht, rfl⟩ := normalise_eq_ok_iff.mp h
  rwa [collapseBlankRuns, collapseFrom_of_notMem (ht.newline_notMem hnewline hraw)]

/-- Normalisation brings no newline in. -/
theorem newline_notMem_of_normalised (hnewline : ∀ s, '\n' ∈ nfc s → '\n' ∈ s)
    (h : normalisePreferences nfc raw = .ok n) (hraw : '\n' ∉ raw) : '\n' ∉ n :=
  (ReadsAs.of_normalised hnewline h hraw).newline_notMem hnewline hraw

/-- The line of a fact is that of the fact it normalises to. -/
theorem isItem_itemLine {fact stored : List Char} (h : normalisePreferences nfc stored = .ok n) :
    isItem nfc fact (itemLine stored) = .ok (trimText n == fact) := by
  rw [isItem, stripItem_eq_some.mpr rfl]
  simp only [h, ok_bind]
  rfl

end Normal

/-! ### What the operations do -/

section Operations

variable {nfc : List Char → List Char} {file file' : Option (List Char)} {fact f n : List Char}

/-- Some line of the file is that of the fact. -/
def Present (nfc : List Char → List Char) (file : Option (List Char)) (fact : List Char) : Prop :=
  ∃ n, normalisePreferences nfc fact = .ok n ∧
    ∃ line ∈ fileLines file, isItem nfc (trimText n) line = .ok true

/-- The fact is accepted, no line has it and there is room for it: the line of `f` is added. -/
structure Adds (nfc : List Char → List Char) (file : Option (List Char)) (fact f : List Char) :
    Prop where
  single : ∀ c ∈ fact, c ∉ lineBreaks
  normal : ∃ n, normalisePreferences nfc fact = .ok n ∧ trimText n = f
  nonempty : f ≠ []
  fresh : ∀ line ∈ fileLines file, isItem nfc f line = .ok false
  fits : size (file.getD []) + size (itemLine f ++ ['\n']) ≤ prefsMaxBytes

theorem orPanic_eq_ok {α : Type} {x : Except Panic α} {a : α} :
    orPanic x = .ok a ↔ x = .ok a := by
  cases x <;> simp [orPanic]

/-- The guard of `append_pref`. -/
theorem single_iff : ¬ fact.any lineBreaks.contains = true ↔ ∀ c ∈ fact, c ∉ lineBreaks := by
  simp only [List.any_eq_true, List.contains_iff_mem, not_exists, not_and]

theorem appendPref_of_adds (h : Adds nfc file fact f) :
    appendPref nfc file fact = .ok (some (file.getD [] ++ (itemLine f ++ ['\n']))) := by
  obtain ⟨n, hn, rfl⟩ := h.normal
  have hfresh : anyItem nfc (trimText n) (textLines (file.getD [])) = .ok false :=
    anyItem_eq_false.mpr h.fresh
  rw [appendPref, if_neg (single_iff.mpr h.single), hn]
  simp only [orPanic, ok_bind, if_neg h.nonempty, hfresh, if_neg (Nat.not_lt.mpr h.fits)]
  rfl

theorem appendPref_of_found (hsingle : ∀ c ∈ fact, c ∉ lineBreaks)
    (hn : normalisePreferences nfc fact = .ok n) (hne : trimText n ≠ [])
    (hfound : anyItem nfc (trimText n) (fileLines file) = .ok true) :
    appendPref nfc file fact = .ok file := by
  rw [fileLines] at hfound
  rw [appendPref, if_neg (single_iff.mpr hsingle), hn]
  simp only [orPanic, ok_bind, if_neg hne, hfound]
  rfl

/-- `append_pref` adds a line, or it finds the fact and leaves the file alone. -/
theorem appendPref_spec (h : appendPref nfc file fact = .ok file') :
    (∃ f, Adds nfc file fact f) ∨ file' = file ∧ Present nfc file fact := by
  rw [appendPref] at h
  split_ifs at h with hbreak
  obtain ⟨n, hn, h⟩ := exists_of_bind_eq_ok h
  have hnormal : normalisePreferences nfc fact = .ok n := orPanic_eq_ok.mp hn
  by_cases hempty : trimText n = []
  · simp [hempty] at h
  rw [if_neg hempty] at h
  obtain ⟨found, hfound, h⟩ := exists_of_bind_eq_ok h
  have hany : anyItem nfc (trimText n) (fileLines file) = .ok found := orPanic_eq_ok.mp hfound
  cases found with
  | true => exact .inr ⟨(Except.ok.inj h).symm, n, hnormal, exists_of_anyItem hany⟩
  | false =>
    simp only [Bool.false_eq_true, if_false] at h
    split_ifs at h with hsize
    exact .inl ⟨trimText n, single_iff.mp hbreak, ⟨n, hnormal, rfl⟩, hempty,
      anyItem_eq_false.mp hany, Nat.le_of_not_lt hsize⟩

/-- Joining lines puts one line behind the other. -/
theorem intercalate_append {ls : List (List Char)} (h : ls ≠ []) :
    ['\n'].intercalate ls ++ ['\n'] = ls.flatMap (· ++ ['\n']) := by
  induction ls with
  | nil => exact absurd rfl h
  | cons l ls ih =>
    by_cases hnil : ls = []
    · simp [hnil]
    · rw [List.intercalate_cons_of_ne_nil hnil, List.flatMap_cons, List.append_assoc,
        List.append_assoc, ih hnil]
      simp

/-- `remove_pref` leaves the lines of other facts, one behind the other. -/
theorem removePref_of_found (content : List Char) (hn : normalisePreferences nfc fact = .ok n)
    (hdecided : Decided nfc (trimText n) (textLines content))
    (hfound : ∃ line ∈ textLines content, isItem nfc (trimText n) line = .ok true) :
    removePref nfc (some content) fact =
      .ok (true, some ((others nfc (trimText n) (textLines content)).flatMap (· ++ ['\n']))) := by
  simp only [removePref, hn, ok_bind, filterItems_of_decided hdecided, decide_eq_true hfound]
  by_cases hempty : others nfc (trimText n) (textLines content) = []
  · simp only [hempty]
    rfl
  · simp only [← intercalate_append hempty, List.isEmpty_eq_false_iff.mpr hempty]
    rfl

theorem removePref_of_not_found (content : List Char) (hn : normalisePreferences nfc fact = .ok n)
    (hdecided : Decided nfc (trimText n) (textLines content))
    (hfound : ¬ ∃ line ∈ textLines content, isItem nfc (trimText n) line = .ok true) :
    removePref nfc (some content) fact = .ok (false, some content) := by
  simp only [removePref, hn, ok_bind, filterItems_of_decided hdecided, decide_eq_false hfound]
  rfl

theorem decided_of_removePref {content : List Char} {r : Bool × Option (List Char)}
    (h : removePref nfc (some content) fact = .ok r) :
    ∃ n, normalisePreferences nfc fact = .ok n ∧
      Decided nfc (trimText n) (textLines content) := by
  obtain ⟨n, hn, h⟩ := exists_of_bind_eq_ok h
  obtain ⟨filtered, hfiltered, -⟩ := exists_of_bind_eq_ok h
  exact ⟨n, hn, decided_of_filterItems hfiltered⟩

end Operations

/-! ### The laws of the store -/

section Laws

variable (nfc : List Char → List Char) (file : Option (List Char)) (fact : List Char)

/-- What a store of facts promises, at a file and a fact. -/
structure StoreLaws : Prop where
  /-- A new fact is one more line. -/
  append (file' : Option (List Char)) (h : appendPref nfc file fact = .ok file')
    (hnew : ¬ Present nfc file fact) : ∃ n, normalisePreferences nfc fact = .ok n ∧
      fileLines file' = fileLines file ++ [itemLine (trimText n)]
  /-- The same fact once more changes nothing. -/
  again (file' : Option (List Char)) (h : appendPref nfc file fact = .ok file') :
    appendPref nfc file' fact = .ok file'
  limit (file' : Option (List Char)) (h : appendPref nfc file fact = .ok file')
    (hwritten : file' ≠ file) : size (file'.getD []) ≤ prefsMaxBytes
  /-- What is left is the lines of other facts. -/
  remove (found : Bool) (file' : Option (List Char)) (n : List Char)
    (h : removePref nfc file fact = .ok (found, file'))
    (hn : normalisePreferences nfc fact = .ok n) :
    fileLines file' = others nfc (trimText n) (fileLines file) ∧
      ∀ line ∈ fileLines file', isItem nfc (trimText n) line = .ok false
  /-- What is shown can be removed. -/
  shown (text x : List Char) (h : readPrefs nfc file = .ok (some text))
    (hx : itemLine x ∈ textLines text) : ∃ file', removePref nfc file x = .ok (true, file')

/-- When the operations keep to the laws. -/
structure Tidy : Prop where
  /-- Where a line is added, the last one is terminated. -/
  closed (f : List Char) (h : Adds nfc file fact f) : Lines.Closed '\n' (file.getD [])
  /-- Where a line is removed, no other one ends in a carriage return. -/
  returns (n : List Char) (hn : normalisePreferences nfc fact = .ok n)
    (hdecided : Decided nfc (trimText n) (fileLines file))
    (hfound : ∃ line ∈ fileLines file, isItem nfc (trimText n) line = .ok true) :
    ∀ line ∈ others nfc (trimText n) (fileLines file), line.getLast? ≠ some '\r'
  /-- Each fact of the normalised file is that of a line as it stands in the file, and no line
  stops the search for it. -/
  shown (content text x : List Char) (hfile : file = some content)
    (h : normalisePreferences nfc content = .ok text) (hx : itemLine x ∈ textLines text) :
    Decided nfc (trimText x) (textLines content) ∧
      ∃ line ∈ textLines content, isItem nfc (trimText x) line = .ok true

end Laws

section Laws

variable {nfc : List Char → List Char} {file : Option (List Char)} {fact f n : List Char}

/-- Nothing that is present is added. -/
theorem Adds.not_present (h : Adds nfc file fact f) : ¬ Present nfc file fact := by
  rintro ⟨n, hn, line, hline, hitem⟩
  obtain ⟨m, hm, rfl⟩ := h.normal
  obtain rfl := Except.ok.inj (hm.symm.trans hn)
  cases (h.fresh line hline).symm.trans hitem

/-- The new line is a line of its own if and only if the one before is terminated. -/
theorem Adds.lines_iff (hnewline : ∀ s, '\n' ∈ nfc s → '\n' ∈ s) (h : Adds nfc file fact f) :
    fileLines (some (file.getD [] ++ (itemLine f ++ ['\n']))) = fileLines file ++ [itemLine f] ↔
      Lines.Closed '\n' (file.getD []) := by
  obtain ⟨n, hn, rfl⟩ := h.normal
  have hfact : '\n' ∉ fact := fun hmem => h.single '\n' hmem (by decide)
  have hline : '\n' ∉ itemLine (trimText n) := by
    have hn := newline_notMem_of_normalised hnewline hn hfact
    have htrim := fun hmem => hn ((trimText_infix_self n).subset hmem)
    simpa [itemLine] using htrim
  have hreturn : (itemLine (trimText n)).getLast? ≠ some '\r' := by
    rw [itemLine, List.getLast?_cons_cons, List.getLast?_cons_of_ne_nil h.nonempty]
    intro hlast
    exact absurd (getLast?_trimText hlast) (by decide)
  exact Lines.lines_append_line_iff hline hreturn

/-- Behind a terminated line the fact is found again. -/
theorem Adds.again (hnfc : NormalForm nfc)
    (hkept : ∀ s, ∀ c ∈ nfc s, dangerous c = true → c ∈ s)
    (hnewline : ∀ s, '\n' ∈ nfc s → '\n' ∈ s) (h : Adds nfc file fact f)
    (hclosed : Lines.Closed '\n' (file.getD [])) :
    appendPref nfc (some (file.getD [] ++ (itemLine f ++ ['\n']))) fact =
      .ok (some (file.getD [] ++ (itemLine f ++ ['\n']))) := by
  have hlines := (h.lines_iff hnewline).mpr hclosed
  obtain ⟨n, hn, rfl⟩ := h.normal
  have hfact : '\n' ∉ fact := fun hmem => h.single '\n' hmem (by decide)
  have hline : '\n' ∉ trimText n := fun hmem =>
    newline_notMem_of_normalised hnewline hn hfact ((trimText_infix_self n).subset hmem)
  have htrim := (normal_of_normalised hnfc hkept hn).part hnfc (trimText_infix_self n)
  have hnormal := normalise_of_normal htrim hline
  refine appendPref_of_found h.single hn h.nonempty ?_
  rw [hlines, anyItem_concat h.fresh, isItem_itemLine hnormal, trimText_trimText, beq_self_eq_true]

theorem others_eq_self {ls : List (List Char)} (hdecided : Decided nfc f ls)
    (h : ¬ ∃ line ∈ ls, isItem nfc f line = .ok true) : others nfc f ls = ls := by
  refine List.filter_eq_self.mpr fun line hline => ?_
  obtain ⟨b, hb⟩ := hdecided line hline
  cases b with
  | true => exact absurd ⟨line, hline, hb⟩ h
  | false => exact decide_eq_true hb

theorem isItem_of_mem_others {ls : List (List Char)} {line : List Char}
    (h : line ∈ others nfc f ls) : isItem nfc f line = .ok false :=
  of_decide_eq_true (List.mem_filter.mp h).2

/-- The lines that are left are read again as they were if and only if none ends in a carriage
return. -/
theorem lines_others_iff (content : List Char) :
    textLines ((others nfc f (textLines content)).flatMap (· ++ ['\n'])) =
        others nfc f (textLines content) ↔
      ∀ line ∈ others nfc f (textLines content), line.getLast? ≠ some '\r' :=
  Lines.lines_flatMap_eq_self_iff fun _ hline =>
    Lines.notMem_of_mem_lines (List.mem_filter.mp hline).1

/-- The fact of a line of a normal text is normalised already. -/
theorem normalise_of_line (hnfc : NormalForm nfc) {text x : List Char} (h : Normal nfc text)
    (hx : itemLine x ∈ textLines text) : normalisePreferences nfc x = .ok x := by
  have hline : '\n' ∉ itemLine x := Lines.notMem_of_mem_lines hx
  have hinfix : x <:+: text := by
    have hitem : itemLine x <:+: text := Lines.infix_of_mem_lines hx
    exact (List.suffix_append ['-', ' '] x).isInfix.trans hitem
  refine normalise_of_normal (h.part hnfc hinfix) ?_
  exact fun hmem => hline (List.mem_cons_of_mem _ (List.mem_cons_of_mem _ hmem))

/-- The items that are shown are those of the normalised file. -/
theorem readPrefs_eq_some {text x : List Char} (hx : itemLine x ∈ textLines text) :
    readPrefs nfc file = .ok (some text) ↔
      ∃ content, file = some content ∧ normalisePreferences nfc content = .ok text := by
  have hne : trimText text ≠ [] := by
    intro hempty
    have hitem : itemLine x <:+: text := Lines.infix_of_mem_lines hx
    have hdash := isWhitespace_of_trimText hempty '-' (hitem.subset List.mem_cons_self)
    exact absurd hdash (by decide)
  cases file with
  | none => simp [readPrefs]
  | some content =>
    have hread : readPrefs nfc (some content) = .ok (some text) ↔
        normalisePreferences nfc content = .ok text := by
      rw [readPrefs]
      cases hcontent : normalisePreferences nfc content with
      | error p => simp [Except.bind, bind]
      | ok n =>
        rw [ok_bind]
        by_cases hempty : trimText n = []
        · have hother : n ≠ text := by
            rintro rfl
            exact hne hempty
          simp [hempty, hother, pure, Except.pure]
        · simp [hempty, pure, Except.pure]
    simp [hread]

/-- What shows is normal. -/
theorem normalise_shown (hnfc : NormalForm nfc)
    (hkept : ∀ s, ∀ c ∈ nfc s, dangerous c = true → c ∈ s) {text x : List Char}
    (h : readPrefs nfc file = .ok (some text)) (hx : itemLine x ∈ textLines text) :
    normalisePreferences nfc x = .ok x := by
  obtain ⟨content, -, hcontent⟩ := (readPrefs_eq_some hx).mp h
  exact normalise_of_line hnfc (normal_of_normalised hnfc hkept hcontent) hx

/-- A file that is normal itself shows nothing that could not be removed. -/
theorem shown_of_normal (hnfc : NormalForm nfc) {text x : List Char} (h : Normal nfc text)
    (hx : itemLine x ∈ textLines text) : Decided nfc (trimText x) (textLines text) ∧
      ∃ line ∈ textLines text, isItem nfc (trimText x) line = .ok true := by
  constructor
  · intro line hline
    cases hitem : stripItem line with
    | none => exact ⟨false, by rw [isItem, hitem]⟩
    | some stored =>
      obtain rfl := stripItem_eq_some.mp hitem
      exact ⟨_, isItem_itemLine (normalise_of_line hnfc h hline)⟩
  · refine ⟨_, hx, ?_⟩
    rw [isItem_itemLine (normalise_of_line hnfc h hx), beq_self_eq_true]

end Laws

end Sysknife.Brain
