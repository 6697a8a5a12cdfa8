import Sysknife.Brain.ToolSecrets
import Sysknife.Lib.Marks
import Sysknife.Lib.Spans

/-!
# Credentials in a provider's error message

`sanitize_error_msg` looks for the markers of credentials in the message in lower case, collects a
range for each, joins the ranges and replaces them in the message from the last to the first.

* `searchFrom_returns`: a search goes on behind what it found and still finds every place, since
  no marker overlaps itself.
* `foldlM_replaceRange`: replacing ranges with gaps between them masks what they cover.
* `sanitizeErrorMsg_eq_mask`: **the message with a marker for each block of secret positions.**
-/

namespace Sysknife.Brain

open Slices Marks Spans

def keyParams : List String := ["?key=", "?api_key=", "&key=", "&api_key="]

def headerKeywords : List String := ["bearer ", "x-api-key"]

/-- `"[REDACTED]"` -/
def redactedMessage : List Char := "[REDACTED]".toList

/-- What may stand between a keyword and its value. -/
def isSeparator (c : Char) : Bool := isWhitespace c || c == ':' || c == '='

/-- From behind the `?` or `&` to the next whitespace. -/
def paramRange (lower : List Char) (start : ℕ) : Except Panic (List Span) := do
  let rest ← sliceFrom lower start
  return [(start + 1, start + spanSize (fun c => !isWhitespace c) rest)]

/-- The value behind a keyword, if there is one. -/
def headerRange (lower keyword : List Char) (start : ℕ) : Except Panic (List Span) := do
  let afterKeyword := start + size keyword
  let rest ← sliceFrom lower afterKeyword
  let valueStart := afterKeyword + spanSize isSeparator rest
  let value ← sliceFrom lower valueStart
  let valueEnd := valueStart + spanSize (fun c => !isWhitespace c) value
  return if valueStart < valueEnd then [(valueStart, valueEnd)] else []

/-- The loop over the places where a pattern stands. -/
def searchFrom (lower pattern : List Char) (rangeAt : ℕ → Except Panic (List Span)) :
    ℕ → ℕ → List Span → Except Panic (List Span)
  | 0, _, _ => .error .diverges
  | fuel + 1, from_, ranges => do
    let hay ← sliceFrom lower from_
    match findText pattern hay with
    | none => return ranges
    | some rel =>
      let start := from_ + rel
      let found ← rangeAt start
      searchFrom lower pattern rangeAt fuel (start + size pattern) (ranges ++ found)

/-- `String::replace_range` -/
def replaceRange (text : List Char) (range : Span) : Except Panic (List Char) := do
  let front ← slice text 0 range.1
  let _ ← slice text range.1 range.2
  let back ← sliceFrom text range.2
  return front ++ (redactedMessage ++ back)

/-- The ranges of all markers. -/
def secretRanges (lower : List Char) : Except Panic (List Span) := do
  let ranges ← keyParams.foldlM (fun ranges pattern =>
    searchFrom lower pattern.toList (paramRange lower) (size lower + 1) 0 ranges) []
  headerKeywords.foldlM (fun ranges keyword =>
    searchFrom lower keyword.toList (headerRange lower keyword.toList) (size lower + 1) 0 ranges)
    ranges

def sanitizeErrorMsg (msg : List Char) : Except Panic (List Char) := do
  let ranges ← secretRanges (msg.map Char.toLower)
  if ranges.isEmpty then return msg
  else
    let ranges := merge (ranges.mergeSort fun a b => a.1 ≤ b.1)
    ranges.reverse.foldlM replaceRange msg

/-! ### Secret positions -/

/-- From behind the `?` or `&` of some parameter to the next whitespace. -/
def ParamSecret (msg : List Char) (n : ℕ) : Prop :=
  ∃ pattern ∈ keyParams, ∃ a w b, msg = a ++ (w ++ b) ∧ w.map Char.toLower = pattern.toList ∧
    size a + 1 ≤ n ∧ n < size a + size ((w ++ b).takeWhile fun c => !isWhitespace c)

/-- In the token behind some keyword and the separators after it. -/
def HeaderSecret (msg : List Char) (n : ℕ) : Prop :=
  ∃ keyword ∈ headerKeywords, ∃ a w separators value,
    msg = a ++ (w ++ (separators ++ value)) ∧ w.map Char.toLower = keyword.toList ∧
    (∀ c ∈ separators, isSeparator c = true) ∧ (∀ c ∈ value.head?, isSeparator c = false) ∧
    size a + size w + size separators ≤ n ∧
    n < size a + size w + size separators + size (value.takeWhile fun c => !isWhitespace c)

/-- A position of a credential, as a byte offset. -/
def Secret (msg : List Char) (n : ℕ) : Prop := ParamSecret msg n ∨ HeaderSecret msg n

/-! ### Searching -/

section Search

variable {q text : List Char}

/-- A text that occurs is found, no later than it occurs. -/
theorem exists_findText (q a b : List Char) :
    ∃ n, findText q (a ++ (q ++ b)) = some n ∧ n ≤ size a := by
  induction a with
  | nil =>
    rw [List.nil_append]
    cases hqb : q ++ b with
    | nil =>
      obtain ⟨rfl, -⟩ := List.append_eq_nil_iff.mp hqb
      exact ⟨0, rfl, le_rfl⟩
    | cons c s =>
      have hhere : q.isPrefixOf (c :: s) = true :=
        List.isPrefixOf_iff_prefix.mpr (hqb ▸ List.prefix_append q b)
      exact ⟨0, by rw [findText, if_pos hhere], Nat.zero_le _⟩
  | cons c a ih =>
    obtain ⟨n, hn, hle⟩ := ih
    rw [List.cons_append, findText]
    split_ifs
    · exact ⟨0, rfl, Nat.zero_le _⟩
    · refine ⟨n + c.utf8Size, by rw [hn, Option.map_some], ?_⟩
      rw [size_cons]
      omega

/-- What is found is the first occurrence. -/
theorem findText_first {q s a b : List Char} {n : ℕ} (h : findText q s = some n)
    (hs : s = a ++ (q ++ b)) : n ≤ size a := by
  obtain ⟨m, hm, hle⟩ := exists_findText q a b
  rw [← hs, h] at hm
  exact Option.some.inj hm ▸ hle

/-- An occurrence from an offset on is an occurrence in the rest of the text. -/
theorem occurrence_from {x hay a b : List Char} (htext : text = x ++ hay)
    (hle : size x ≤ size a) : text = a ++ (q ++ b) ↔ ∃ m, a = x ++ m ∧ hay = m ++ (q ++ b) := by
  constructor
  · intro h
    exact exists_append_of_size_le (htext.symm.trans h) hle
  · rintro ⟨m, rfl, rfl⟩
    rw [htext, List.append_assoc]

/-- A search finds every place: between one place and the end of the marker there, no other
begins. -/
theorem searchFrom_returns (hq : Marked q) {rangeAt : ℕ → Except Panic (List Span)}
    {spansAt : List Char → List Char → List Span}
    (hrange : ∀ a b, text = a ++ (q ++ b) → rangeAt (size a) = .ok (spansAt a b))
    {fuel start : ℕ} (hstart : Boundary text start) (hfuel : size text < start + fuel)
    (ranges : List Span) :
    Returns (searchFrom text q rangeAt fuel start ranges) fun result => ∀ r, r ∈ result ↔
      r ∈ ranges ∨ ∃ a b, text = a ++ (q ++ b) ∧ start ≤ size a ∧ r ∈ spansAt a b := by
  induction fuel generalizing start ranges with
  | zero =>
    have hle := hstart.le
    omega
  | succ fuel ih =>
    obtain ⟨x, hay, htext, rfl⟩ := hstart
    have hslice : sliceFrom text (size x) = .ok hay := htext ▸ sliceFrom_append x hay
    rw [searchFrom, hslice, ok_bind]
    cases hfind : findText q hay with
    | none =>
      refine Returns.ok fun r => ?_
      rw [iff_self_or]
      rintro ⟨a, b, h, hle, -⟩
      obtain ⟨m, rfl, rfl⟩ := (occurrence_from htext hle).mp h
      obtain ⟨n, hn, -⟩ := exists_findText q m b
      cases hfind.symm.trans hn
    | some rel =>
      obtain ⟨m, rest, rfl, rfl⟩ := findText_eq_some hfind
      have hpos : 0 < size q := by
        obtain ⟨c, v, rfl, -⟩ := hq
        exact size_pos (List.cons_ne_nil c v)
      have hplace : text = (x ++ m) ++ (q ++ rest) := by rw [htext, List.append_assoc]
      have hsize : size text = size x + size m + size q + size rest := by
        rw [hplace, size_append, size_append, size_append]
        omega
      have hnext : Boundary text (size x + size m + size q) :=
        ⟨x ++ m ++ q, rest, by rw [hplace]; simp, by rw [size_append, size_append]⟩
      have hfound := hrange (x ++ m) rest hplace
      rw [size_append] at hfound
      simp only [hfound, ok_bind]
      refine (ih hnext (by omega) (ranges ++ spansAt (x ++ m) rest)).mono fun result hresult r => ?_
      rw [hresult, List.mem_append, or_assoc]
      refine or_congr_right ⟨?_, ?_⟩
      · rintro (hr | ⟨a, b, h, hle, hr⟩)
        · exact ⟨x ++ m, rest, hplace, by rw [size_append]; omega, hr⟩
        · exact ⟨a, b, h, by omega, hr⟩
      · rintro ⟨a, b, h, hle, hr⟩
        obtain ⟨m', rfl, hm'⟩ := (occurrence_from htext hle).mp h
        -- the place is the one found, or it lies behind the marker there
        obtain ⟨d, rfl, hd⟩ := exists_append_of_size_le hm' (findText_first hfind hm')
        rcases hq.no_overlap hd with rfl | ⟨e, rfl⟩
        · obtain rfl : rest = b := List.append_cancel_left hd
          rw [List.append_nil] at hr
          exact .inl hr
        · refine .inr ⟨_, b, h, ?_, hr⟩
          simp only [size_append]
          omega

end Search

/-! ### The ranges that are found -/

section Ranges

variable {lower : List Char}

/-- The range of a parameter that stands in front of `b`. -/
def paramSpans (pattern a b : List Char) : List Span :=
  [(size a + 1, size a + size ((pattern ++ b).takeWhile fun c => !isWhitespace c))]

/-- The range of the value in front of which a keyword stands. -/
def headerSpans (keyword a b : List Char) : List Span :=
  let start := size a + size keyword + size (b.takeWhile isSeparator)
  let stop := start + size ((b.dropWhile isSeparator).takeWhile fun c => !isWhitespace c)
  if start < stop then [(start, stop)] else []

theorem paramRange_eq {pattern a b : List Char} (h : lower = a ++ (pattern ++ b)) :
    paramRange lower (size a) = .ok (paramSpans pattern a b) := by
  rw [paramRange, h, sliceFrom_append, ok_bind]
  rfl

theorem headerRange_eq {keyword a b : List Char} (h : lower = a ++ (keyword ++ b)) :
    headerRange lower keyword (size a) = .ok (headerSpans keyword a b) := by
  have hrest : sliceFrom lower (size a + size keyword) = .ok b := by
    rw [h, ← List.append_assoc, ← size_append]
    exact sliceFrom_append (a ++ keyword) b
  have hvalue : sliceFrom lower (size a + size keyword + spanSize isSeparator b) =
      .ok (b.dropWhile isSeparator) := by
    have hsplit : lower = (a ++ (keyword ++ b.takeWhile isSeparator)) ++
        b.dropWhile isSeparator := by
      rw [h, List.append_assoc, List.append_assoc, List.takeWhile_append_dropWhile]
    have hsize : size (a ++ (keyword ++ b.takeWhile isSeparator)) =
        size a + size keyword + spanSize isSeparator b := by
      rw [size_append, size_append, spanSize, Nat.add_assoc]
    rw [hsplit, ← hsize]
    exact sliceFrom_append _ _
  simp only [headerRange, hrest, ok_bind, hvalue]
  rfl

/-- All searches for one kind of marker, one after the other. -/
theorem foldlM_searchFrom_returns {rangeAt : List Char → ℕ → Except Panic (List Span)}
    {spansAt : List Char → List Char → List Char → List Span}
    (hrange : ∀ q a b, lower = a ++ (q ++ b) → rangeAt q (size a) = .ok (spansAt q a b))
    {patterns : List String} (hmarked : ∀ p ∈ patterns, Marked p.toList) (ranges : List Span) :
    Returns (patterns.foldlM (fun ranges p =>
      searchFrom lower p.toList (rangeAt p.toList) (size lower + 1) 0 ranges) ranges)
      fun result => ∀ r, r ∈ result ↔ r ∈ ranges ∨
        ∃ p ∈ patterns, ∃ a b, lower = a ++ (p.toList ++ b) ∧ r ∈ spansAt p.toList a b := by
  induction patterns generalizing ranges with
  | nil => exact Returns.ok fun r => by simp
  | cons p patterns ih =>
    obtain ⟨hp, hpatterns⟩ := List.forall_mem_cons.mp hmarked
    rw [List.foldlM_cons]
    refine (searchFrom_returns hp (hrange p.toList) (boundary_zero lower) (by omega) ranges).bind
      fun found hfound => (ih hpatterns found).mono fun result hresult r => ?_
    rw [hresult, hfound, or_assoc, List.exists_mem_cons_iff]
    simp

theorem marked_keyParams : ∀ p ∈ keyParams, Marked p.toList := by
  simp only [keyParams, List.forall_mem_cons]
  exact ⟨Marked.cons (by decide), Marked.cons (by decide), Marked.cons (by decide),
    Marked.cons (by decide), by simp⟩

theorem marked_headerKeywords : ∀ p ∈ headerKeywords, Marked p.toList := by
  simp only [headerKeywords, List.forall_mem_cons]
  exact ⟨Marked.cons (by decide), Marked.cons (by decide), by simp⟩

/-- The ranges are those of the places where a marker stands. -/
theorem secretRanges_returns (lower : List Char) :
    Returns (secretRanges lower) fun result => ∀ r, r ∈ result ↔
      (∃ p ∈ keyParams, ∃ a b, lower = a ++ (p.toList ++ b) ∧ r ∈ paramSpans p.toList a b) ∨
        ∃ k ∈ headerKeywords, ∃ a b, lower = a ++ (k.toList ++ b) ∧
          r ∈ headerSpans k.toList a b := by
  refine (foldlM_searchFrom_returns (fun _ _ _ => paramRange_eq) marked_keyParams []).bind
    fun params hparams => (foldlM_searchFrom_returns (fun _ _ _ => headerRange_eq)
      marked_headerKeywords params).mono fun result hresult r => ?_
  rw [hresult, hparams, or_iff_right List.not_mem_nil]

/-- A nonempty range between two boundaries. -/
def GoodSpan (text : List Char) (r : Span) : Prop :=
  r.1 < r.2 ∧ Boundary text r.1 ∧ Boundary text r.2

/-- A first character of one byte, a further one, and no blank. -/
def shapedParam (p : String) : Bool :=
  match p.toList with
  | [] => false
  | c :: v => !v.isEmpty && (c.utf8Size == 1 && (c :: v).all fun d => !isWhitespace d)

/-- A parameter opens with a character of one byte and has no whitespace. -/
theorem keyParams_shape : ∀ p ∈ keyParams, ∃ c v, p.toList = c :: v ∧ v ≠ [] ∧
    c.utf8Size = 1 ∧ ∀ d ∈ c :: v, isWhitespace d = false := by
  have hall : keyParams.all shapedParam = true := by decide +kernel
  intro p hp
  have hchecked := List.all_eq_true.mp hall p hp
  rw [shapedParam] at hchecked
  cases hp' : p.toList with
  | nil => simp [hp'] at hchecked
  | cons c v =>
    refine ⟨c, v, rfl, ?_⟩
    simpa [hp'] using hchecked

theorem good_paramSpans {p : String} (hp : p ∈ keyParams) {a b : List Char} {r : Span}
    (h : r ∈ paramSpans p.toList a b) : GoodSpan (a ++ (p.toList ++ b)) r := by
  obtain ⟨c, v, hcv, hv, hc, hspace⟩ := keyParams_shape p hp
  obtain rfl := List.mem_singleton.mp h
  have htoken : (p.toList ++ b).takeWhile (fun c => !isWhitespace c) =
      p.toList ++ b.takeWhile (fun c => !isWhitespace c) := by
    rw [List.takeWhile_append_of_pos]
    intro d hd
    rw [hcv] at hd
    simp [hspace d hd]
  have hsize := size_pos hv
  refine ⟨?_, ?_, (boundary_takeWhile _ _).append_left a⟩
  · show size a + 1 < _
    rw [htoken, size_append, hcv, size_cons]
    omega
  · refine ⟨a ++ [c], v ++ b, by rw [hcv]; simp, ?_⟩
    rw [size_append, size_cons, hc, size_nil]

theorem good_headerSpans {keyword a b : List Char} {r : Span}
    (h : r ∈ headerSpans keyword a b) : GoodSpan (a ++ (keyword ++ b)) r := by
  rw [headerSpans] at h
  split_ifs at h with hlt
  · obtain rfl := List.mem_singleton.mp h
    refine ⟨hlt, ?_, ?_⟩
    · have hstart := ((boundary_takeWhile isSeparator b).append_left keyword).append_left a
      rwa [← Nat.add_assoc] at hstart
    · have hvalue := (boundary_takeWhile (fun c => !isWhitespace c)
        (b.dropWhile isSeparator)).append_left (a ++ (keyword ++ b.takeWhile isSeparator))
      rw [List.append_assoc, List.append_assoc, List.takeWhile_append_dropWhile, size_append,
        size_append, ← Nat.add_assoc] at hvalue
      exact hvalue
  · exact absurd h List.not_mem_nil

end Ranges

/-! ### The replacement -/

theorem replaceRange_append (a m b : List Char) :
    replaceRange (a ++ (m ++ b)) (size a, size a + size m) =
      .ok (a ++ (redactedMessage ++ b)) := by
  have hfront : slice (a ++ (m ++ b)) 0 (size a) = .ok a := by
    have hslice := slice_append [] a (m ++ b)
    rwa [List.nil_append, size_nil, Nat.zero_add] at hslice
  have hback : sliceFrom (a ++ (m ++ b)) (size a + size m) = .ok b := by
    rw [← List.append_assoc, ← size_append]
    exact sliceFrom_append (a ++ m) b
  simp only [replaceRange, hfront, slice_append, hback, ok_bind]
  rfl

/-- Replacing ranges with gaps between them, from the last to the first, masks what they
cover. -/
theorem foldlM_replaceRange {text a s : List Char} {ranges : List Span} (hapart : Apart ranges)
    (hbound : ∀ r ∈ ranges, Boundary text r.1 ∧ Boundary text r.2) (htext : text = a ++ s)
    (hafter : ∀ r ∈ ranges, size a ≤ r.1) :
    ranges.reverse.foldlM replaceRange text =
      .ok (a ++ maskFrom (Covers ranges) redactedMessage (size a) false s) := by
  induction ranges generalizing a s with
  | nil =>
    rw [maskFrom_nil_covers, htext]
    rfl
  | cons r ranges ih =>
    obtain ⟨i, j⟩ := r
    obtain ⟨hgap, hrest⟩ := List.pairwise_cons.mp hapart.1
    obtain ⟨hne, hnonempty⟩ := List.forall_mem_cons.mp hapart.2
    obtain ⟨⟨hi, hj⟩, hbounds⟩ := List.forall_mem_cons.mp hbound
    obtain ⟨front, m, b, hcut, rfl, rfl⟩ := hi.between hj hne.le
    -- the block stands behind what was passed over
    obtain ⟨d, rfl, rfl⟩ := exists_append_of_size_le (htext.symm.trans hcut)
      (hafter _ List.mem_cons_self)
    have hm : m ≠ [] := by
      rintro rfl
      exact absurd hne (by simp)
    have hlater := ih ⟨hrest, hnonempty⟩ hbounds
      (show text = (a ++ d ++ m) ++ b by rw [hcut, List.append_assoc _ m])
      (fun r hr => by rw [size_append]; exact (hgap r hr).le)
    rw [size_append] at hapart
    have hmask : maskFrom (Covers ((size (a ++ d), size (a ++ d) + size m) :: ranges))
        redactedMessage (size a) false (d ++ (m ++ b)) =
        d ++ (redactedMessage ++
          maskFrom (Covers ranges) redactedMessage (size (a ++ d ++ m)) false b) := by
      rw [size_append, size_append, size_append]
      exact mask_span hm hapart rfl b
    rw [List.reverse_cons, List.foldlM_append, hlater, ok_bind, List.foldlM_cons,
      List.append_assoc, replaceRange_append, ok_bind, List.foldlM_nil, hmask,
      List.append_assoc]
    rfl

/-! ### Positions in the message -/

section Positions

variable {msg : List Char}

/-- A marker in the message in lower case is a marker in the message, ignoring case. -/
theorem lower_eq_append {p x y : List Char} : msg.map Char.toLower = x ++ (p ++ y) ↔
    ∃ a w b, msg = a ++ (w ++ b) ∧ a.map Char.toLower = x ∧ w.map Char.toLower = p ∧
      b.map Char.toLower = y := by
  rw [List.map_eq_append_iff]
  constructor
  · rintro ⟨a, rest, rfl, rfl, hrest⟩
    obtain ⟨w, b, rfl, rfl, rfl⟩ := List.map_eq_append_iff.mp hrest
    exact ⟨a, w, b, rfl, rfl, rfl, rfl⟩
  · rintro ⟨a, w, b, rfl, rfl, rfl, rfl⟩
    exact ⟨a, w ++ b, rfl, rfl, List.map_append⟩

theorem size_lower (s : List Char) : size (s.map Char.toLower) = size s :=
  size_map toLower_utf8Size s

theorem isWhitespace_toLower (c : Char) : isWhitespace c.toLower = isWhitespace c := by
  have hlower := toNat_toLower c
  split_ifs at hlower with h
  · rw [Bool.eq_iff_iff]
    simp only [isWhitespace, Bool.or_eq_true, Bool.and_eq_true, decide_eq_true_eq, beq_iff_eq,
      hlower]
    omega
  · rw [Char.toNat_inj.mp hlower]

theorem isSeparator_toLower (c : Char) : isSeparator c.toLower = isSeparator c := by
  have hlower := toNat_toLower c
  split_ifs at hlower with h
  · have hchar : ∀ d : Char, d.toNat < 65 → (c.toLower == d) = (c == d) := by
      intro d hd
      rw [Bool.eq_iff_iff, beq_iff_eq, beq_iff_eq]
      refine iff_of_false ?_ ?_ <;> rintro rfl <;> omega
    rw [isSeparator, isSeparator, isWhitespace_toLower, hchar ':' (by decide),
      hchar '=' (by decide)]
  · rw [Char.toNat_inj.mp hlower]

/-- A test that ignores case ends in the same place. -/
theorem size_takeWhile_lower {p : Char → Bool} (hp : ∀ c : Char, p c.toLower = p c)
    (s : List Char) : size ((s.map Char.toLower).takeWhile p) = size (s.takeWhile p) := by
  have hcomp : p ∘ Char.toLower = p := funext hp
  rw [List.takeWhile_map, hcomp, size_lower]

theorem dropWhile_lower {p : Char → Bool} (hp : ∀ c : Char, p c.toLower = p c) (s : List Char) :
    (s.map Char.toLower).dropWhile p = (s.dropWhile p).map Char.toLower := by
  have hcomp : p ∘ Char.toLower = p := funext hp
  rw [List.dropWhile_map, hcomp]

theorem paramSecret_iff {n : ℕ} : ParamSecret msg n ↔ ∃ p ∈ keyParams, ∃ a b,
    msg.map Char.toLower = a ++ (p.toList ++ b) ∧ Covers (paramSpans p.toList a b) n := by
  have hspace : ∀ c : Char, (!isWhitespace c.toLower) = !isWhitespace c :=
    fun c => congrArg (!·) (isWhitespace_toLower c)
  have hcovers : ∀ p a b, Covers (paramSpans p a b) n ↔
      size a + 1 ≤ n ∧ n < size a + size ((p ++ b).takeWhile fun c => !isWhitespace c) := by
    intro p a b
    rw [paramSpans, covers_cons, or_iff_left (not_covers_nil n)]
  refine exists_congr fun p => and_congr_right fun _ => ?_
  constructor
  · rintro ⟨a, w, b, hmsg, hw, hn⟩
    refine ⟨_, _, lower_eq_append.mpr ⟨a, w, b, hmsg, rfl, hw, rfl⟩, ?_⟩
    rwa [hcovers, ← hw, ← List.map_append, size_takeWhile_lower hspace, size_lower]
  · rintro ⟨x, y, hlowered, hn⟩
    obtain ⟨a, w, b, hmsg, rfl, hw, rfl⟩ := lower_eq_append.mp hlowered
    rw [hcovers, ← hw, ← List.map_append, size_takeWhile_lower hspace, size_lower] at hn
    exact ⟨a, w, b, hmsg, hw, hn⟩

/-- A beginning of separators and what it is followed by. -/
theorem eq_takeWhile_append {p : Char → Bool} {s v : List Char} (hs : ∀ c ∈ s, p c = true)
    (hv : ∀ c ∈ v.head?, p c = false) :
    (s ++ v).takeWhile p = s ∧ (s ++ v).dropWhile p = v := by
  rw [List.takeWhile_append_of_pos hs, List.dropWhile_append_of_pos hs]
  cases v with
  | nil => simp
  | cons c v =>
    have hc := hv c rfl
    simp [hc]

theorem headerSecret_iff {n : ℕ} : HeaderSecret msg n ↔ ∃ k ∈ headerKeywords, ∃ a b,
    msg.map Char.toLower = a ++ (k.toList ++ b) ∧ Covers (headerSpans k.toList a b) n := by
  have hspace : ∀ c : Char, (!isWhitespace c.toLower) = !isWhitespace c :=
    fun c => congrArg (!·) (isWhitespace_toLower c)
  have hcovers : ∀ k a b, Covers (headerSpans k a b) n ↔
      size a + size k + size (b.takeWhile isSeparator) ≤ n ∧
      n < size a + size k + size (b.takeWhile isSeparator) +
        size ((b.dropWhile isSeparator).takeWhile fun c => !isWhitespace c) := by
    intro k a b
    rw [headerSpans]
    split_ifs with hlt
    · rw [covers_cons, or_iff_left (not_covers_nil n)]
    · refine iff_of_false (not_covers_nil n) ?_
      omega
  have hlower : ∀ k a w b : List Char, w.map Char.toLower = k →
      (Covers (headerSpans k (a.map Char.toLower) (b.map Char.toLower)) n ↔
        size a + size w + size (b.takeWhile isSeparator) ≤ n ∧
        n < size a + size w + size (b.takeWhile isSeparator) +
          size ((b.dropWhile isSeparator).takeWhile fun c => !isWhitespace c)) := by
    rintro _ a w b rfl
    rw [hcovers, size_lower, size_lower, size_takeWhile_lower isSeparator_toLower,
      dropWhile_lower isSeparator_toLower, size_takeWhile_lower hspace]
  refine exists_congr fun k => and_congr_right fun _ => ?_
  constructor
  · rintro ⟨a, w, separators, value, hmsg, hw, hseparators, hvalue, hn⟩
    obtain ⟨htake, hdrop⟩ := eq_takeWhile_append hseparators hvalue
    refine ⟨_, _, lower_eq_append.mpr ⟨a, w, separators ++ value, hmsg, rfl, hw, rfl⟩, ?_⟩
    rwa [hlower _ a w _ hw, htake, hdrop]
  · rintro ⟨x, y, hlowered, hn⟩
    obtain ⟨a, w, b, hmsg, rfl, hw, rfl⟩ := lower_eq_append.mp hlowered
    rw [hlower _ a w b hw] at hn
    refine ⟨a, w, b.takeWhile isSeparator, b.dropWhile isSeparator, ?_, hw, ?_, ?_, hn⟩
    · rw [List.takeWhile_append_dropWhile, hmsg]
    · exact List.all_eq_true.mp List.all_takeWhile
    · intro c hc
      have hhead := List.head?_dropWhile_not isSeparator b
      rw [Option.mem_def.mp hc] at hhead
      simpa using hhead

/-- **A provider's message is redacted exactly.** Whatever the message, it is returned with one
marker for each block of secret positions and everything else in its place. -/
theorem sanitizeErrorMsg_eq_mask (msg : List Char) :
    sanitizeErrorMsg msg = .ok (mask (Secret msg) redactedMessage msg) := by
  obtain ⟨ranges, hranges, hmem⟩ := secretRanges_returns (msg.map Char.toLower)
  have hcovers : ∀ n, Covers ranges n ↔ Secret msg n := by
    intro n
    rw [Secret, paramSecret_iff, headerSecret_iff]
    constructor
    · rintro ⟨r, hr, hn⟩
      rcases (hmem r).mp hr with ⟨p, hp, a, b, h, hr⟩ | ⟨k, hk, a, b, h, hr⟩
      · exact .inl ⟨p, hp, a, b, h, r, hr, hn⟩
      · exact .inr ⟨k, hk, a, b, h, r, hr, hn⟩
    · rintro (⟨p, hp, a, b, h, r, hr, hn⟩ | ⟨k, hk, a, b, h, r, hr, hn⟩)
      · exact ⟨r, (hmem r).mpr (.inl ⟨p, hp, a, b, h, hr⟩), hn⟩
      · exact ⟨r, (hmem r).mpr (.inr ⟨k, hk, a, b, h, hr⟩), hn⟩
  have hgood : ∀ r ∈ ranges, GoodSpan msg r := by
    intro r hr
    have hlower : GoodSpan (msg.map Char.toLower) r := by
      rcases (hmem r).mp hr with ⟨p, hp, a, b, h, hr⟩ | ⟨k, -, a, b, h, hr⟩ <;> rw [h]
      · exact good_paramSpans hp hr
      · exact good_headerSpans hr
    exact ⟨hlower.1, hlower.2.1.of_map toLower_utf8Size, hlower.2.2.of_map toLower_utf8Size⟩
  rw [sanitizeErrorMsg, hranges, ok_bind, mask]
  split_ifs with hempty
  · obtain rfl := List.isEmpty_iff.mp hempty
    rw [maskFrom_congr (fun k _ => (hcovers k).symm), maskFrom_nil_covers]
    rfl
  · have hsorted : Ordered (ranges.mergeSort fun a b => a.1 ≤ b.1) := by
      have hpairwise : (ranges.mergeSort fun a b => a.1 ≤ b.1).Pairwise
          fun a b => decide (a.1 ≤ b.1) = true :=
        List.pairwise_mergeSort (by simp only [decide_eq_true_eq]; omega)
          (by simp only [Bool.or_eq_true, decide_eq_true_eq]; omega) ranges
      simpa [Ordered] using hpairwise
    have hsame : ∀ r, r ∈ ranges.mergeSort (fun a b => a.1 ≤ b.1) ↔ r ∈ ranges :=
      fun r => List.mem_mergeSort
    have hbounds : ∀ r ∈ merge (ranges.mergeSort fun a b => a.1 ≤ b.1),
        Boundary msg r.1 ∧ Boundary msg r.2 :=
      forall_merge fun r hr => (hgood r ((hsame r).mp hr)).2
    have hapart := apart_merge hsorted fun r hr => (hgood r ((hsame r).mp hr)).1
    rw [foldlM_replaceRange hapart hbounds (List.nil_append msg).symm fun _ _ => Nat.zero_le _]
    refine congrArg Except.ok (maskFrom_congr (fun k _ => ?_) false msg)
    rw [covers_merge hsorted, ← hcovers]
    simp only [Covers, hsame]

end Positions

end Sysknife.Brain
