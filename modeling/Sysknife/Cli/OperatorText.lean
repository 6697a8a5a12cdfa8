import Sysknife.Actions.Validate

/-!
# Untrusted text on the operator's terminal

What a block of untrusted text looks like above an approval prompt (`operator_text.rs`). Each
line loses the characters that steer a terminal or hide text, its blanks are collapsed, and the
block is capped in both dimensions.

* `operatorSafeChars_eq`: the character rules are the words of a line with a space between them.
* `rendered_stays`: a complete block shows every character that the rules leave, in order.
* `rendering_safe_iff`: the leading whitespace of a line is put back in front of what the
  character rules made of it, as it was. So a block is safe exactly when no line is indented with
  a control character or a separator, and none is too wide with its indentation.
-/

namespace Sysknife.OperatorText

open Text

/-! ### The character rules -/

def maxRenderedLen : ℕ := 512

def truncationMarker : String := "… [truncated]"

def maxRenderedLines : ℕ := 40

def lineTruncationMarker : String := "… [truncated: block too long to display]"

/-- Shown as a single space. -/
def blank (c : Char) : Bool := c == '\t' || c == '\n' || c == '\r' || c == ' '

/-- What is dropped, of the characters that are not blank. -/
def dropped (c : Char) : Bool :=
  let n := c.toNat
  n < 0x20 || n == 0x7F || (0x80 ≤ n && n ≤ 0x9F) ||
    (0x2028 ≤ n && n ≤ 0x202E) || (0x2066 ≤ n && n ≤ 0x2069) ||
    (0x200B ≤ n && n ≤ 0x200F) || n == 0xFEFF || n == 0x061C || n == 0x00AD || n == 0x034F ||
    (0x180B ≤ n && n ≤ 0x180E) || (0x2060 ≤ n && n ≤ 0x2064) || (0x206A ≤ n && n ≤ 0x206F) ||
    (0xFFF9 ≤ n && n ≤ 0xFFFB) || (0xE0000 ≤ n && n ≤ 0xE007F)

/-- One character: the text so far, and whether a space is pending. -/
def safeStep (state : List Char × Bool) (ch : Char) : List Char × Bool :=
  -- A blank is only remembered: it is written before the next character that is kept.
  if blank ch then (state.1, true)
  else if dropped ch then state
  else (state.1 ++ (if state.2 && !state.1.isEmpty then [' '] else []) ++ [ch], false)

/-- The character rules, with no length bound. -/
def operatorSafeChars (s : String) : String :=
  String.ofList (s.toList.foldl safeStep ([], false)).1

/-- A text on one line. -/
def operatorSafe (s : String) : String :=
  let out := operatorSafeChars s
  if maxRenderedLen < out.length then
    String.ofList (out.toList.take maxRenderedLen) ++ truncationMarker
  else out

def operatorSafeUnbounded (s : String) : String := operatorSafeChars s

/-! ### Blocks -/

/-- The leading whitespace of a line. -/
def indent (line : String) : String := String.ofList (line.toList.takeWhile isWhitespace)

/-- A block of lines rendered safe to print, and what it left out. -/
structure OperatorBlock where
  text : String
  withheldLines : ℕ
  shortenedLines : ℕ
  deriving DecidableEq, Repr

/-- Did the operator see all of the original? -/
def OperatorBlock.isComplete (block : OperatorBlock) : Bool :=
  block.withheldLines == 0 && block.shortenedLines == 0

/-- Does a rendered line end with the marker? -/
def marked (rendered : String) : Bool := truncationMarker.toList.isSuffixOf rendered.toList

def operatorSafeBlock (s : String) : OperatorBlock :=
  let total := (lines s).length
  let shown := (lines s).take maxRenderedLines
  let withheld := total - maxRenderedLines
  let rendered := shown.map (fun line => indent line ++ operatorSafe line) ++
    if 0 < withheld then [lineTruncationMarker ++ " (" ++ toString withheld ++ " more)"] else []
  { text := String.intercalate "\n" rendered
    withheldLines := withheld
    shortenedLines := shown.countP fun line => marked (operatorSafe line) }

/-- A block with no caps. -/
def operatorSafeBlockFull (s : String) : OperatorBlock where
  text := String.intercalate "\n"
    ((lines s).map fun line => indent line ++ operatorSafeUnbounded line)
  withheldLines := 0
  shortenedLines := 0

/-! ### What a rendering is for -/

/-- What no line may hold: controls, line separators, characters that reorder text, that have no
width, or that mirror ASCII invisibly. -/
def forbidden (c : Char) : Bool :=
  let n := c.toNat
  let control := n < 0x20 || (0x7F ≤ n && n ≤ 0x9F)
  let separator := n == 0x2028 || n == 0x2029
  let bidi := n == 0x061C || n == 0x200E || n == 0x200F || (0x202A ≤ n && n ≤ 0x202E) ||
    (0x2066 ≤ n && n ≤ 0x2069)
  let zeroWidth := (0x200B ≤ n && n ≤ 0x200D) || n == 0x2060 || n == 0xFEFF
  let tag := 0xE0000 ≤ n && n ≤ 0xE007F
  control || separator || bidi || zeroWidth || tag

/-- No line of a text holds a forbidden character. -/
def Clean (text : String) : Prop := ∀ l ∈ split '\n' text, ∀ c ∈ l.toList, forbidden c = false

/-- Neither dropped nor made a space. -/
def stays (c : Char) : Bool := !blank c && !dropped c

/-- Neither dropped nor whitespace. -/
def visible (c : Char) : Bool := !dropped c && !isWhitespace c

/-- What the two renderings of a text are to be. -/
structure Neutralised (s : String) : Prop where
  clean : Clean (operatorSafeBlock s).text
  cleanFull : Clean (operatorSafeBlockFull s).text
  /-- The lines before the marker line are not too wide. -/
  width : ∀ l ∈ (split '\n' (operatorSafeBlock s).text).take maxRenderedLines,
    l.length ≤ maxRenderedLen + truncationMarker.length
  height : (split '\n' (operatorSafeBlock s).text).length ≤
    maxRenderedLines + if (operatorSafeBlock s).withheldLines = 0 then 0 else 1
  complete : ∀ block ∈ [operatorSafeBlock s, operatorSafeBlockFull s], block.isComplete = true →
    (s.toList.filter visible).Sublist block.text.toList

section Characters

variable {c : Char} {l : List Char}

theorem isWhitespace_of_blank (h : blank c = true) : isWhitespace c = true := by
  simp only [blank, Bool.or_eq_true, beq_iff_eq] at h
  rcases h with ((rfl | rfl) | rfl) | rfl <;> decide

theorem stays_of_visible (h : visible c = true) : stays c = true := by
  rw [visible, Bool.and_eq_true] at h
  rw [stays, h.1, Bool.and_true, Bool.not_eq_true']
  refine eq_false_of_ne_true fun hblank => ?_
  rw [isWhitespace_of_blank hblank] at h
  cases h.2

theorem forbidden_eq_false (h : dropped c = false) : forbidden c = false := by
  simp only [dropped, Bool.or_eq_false_iff, Bool.and_eq_false_iff, decide_eq_false_iff_not,
    beq_eq_false_iff_ne] at h
  simp only [forbidden, Bool.or_eq_false_iff, Bool.and_eq_false_iff, decide_eq_false_iff_not,
    beq_eq_false_iff_ne]
  omega

theorem mem_safeStep {state : List Char × Bool} (h : ∀ c ∈ state.1, dropped c = false)
    (ch : Char) : ∀ c ∈ (safeStep state ch).1, dropped c = false := by
  have hspace : dropped ' ' = false := by decide
  rw [safeStep]
  split_ifs with hblank hdropped hpending
  · exact h
  · exact h
  · intro c hc
    simp only [List.mem_append, List.mem_singleton] at hc
    rcases hc with (hc | rfl) | rfl
    · exact h c hc
    · exact hspace
    · exact eq_false_of_ne_true hdropped
  · intro c hc
    simp only [List.append_nil, List.mem_append, List.mem_singleton] at hc
    rcases hc with hc | rfl
    · exact h c hc
    · exact eq_false_of_ne_true hdropped

/-- The character rules leave nothing that is dropped. -/
theorem mem_operatorSafeChars {s : String} (h : c ∈ (operatorSafeChars s).toList) :
    dropped c = false := by
  rw [operatorSafeChars, String.toList_ofList] at h
  have hall : ∀ state : List Char × Bool, (∀ c ∈ state.1, dropped c = false) →
      ∀ c ∈ (s.toList.foldl safeStep state).1, dropped c = false := by
    induction s.toList with
    | nil => exact fun state hstate => hstate
    | cons ch l ih => exact fun state hstate => ih _ (mem_safeStep hstate ch)
  exact hall ([], false) (fun c hc => absurd hc List.not_mem_nil) c h

/-- No character is lost that stays, and none is added. -/
theorem filter_operatorSafeChars {p : Char → Bool} (hp : ∀ c, p c = true → stays c = true)
    (s : String) : (operatorSafeChars s).toList.filter p = s.toList.filter p := by
  have hother (c : Char) (h : stays c = false) : p c = false :=
    eq_false_of_ne_true fun hc => absurd (hp c hc) (ne_true_of_eq_false h)
  have hspace : p ' ' = false := hother ' ' (by decide)
  have hstep : ∀ (state : List Char × Bool) (ch : Char),
      (safeStep state ch).1.filter p = state.1.filter p ++ [ch].filter p := by
    intro state ch
    rw [safeStep]
    split_ifs with hblank hdropped hpending
    · have hch : p ch = false := hother ch (by rw [stays, hblank, Bool.not_true, Bool.false_and])
      simp [hch]
    · have hch : p ch = false := hother ch (by rw [stays, hdropped, Bool.not_true, Bool.and_false])
      simp [hch]
    · simp [hspace]
    · simp
  have hall : ∀ (l : List Char) (state : List Char × Bool),
      (l.foldl safeStep state).1.filter p = state.1.filter p ++ l.filter p := by
    intro l
    induction l with
    | nil => simp
    | cons ch l ih =>
      intro state
      rw [List.foldl_cons, ih, hstep, List.append_assoc, ← List.filter_append,
        List.singleton_append]
  rw [operatorSafeChars, String.toList_ofList, hall]
  rfl

end Characters

/-! ### The words of a line -/

section Words

variable {f : List Char} {c : Char}

/-- What the character rules do not drop. -/
def kept (c : Char) : Bool := blank c || !dropped c

/-- The words of a line, with a space between them. -/
def collapsed (line : String) : String :=
  String.intercalate " " (wordsBy blank (String.ofList (line.toList.filter kept)))

/-- Words with a space between them. -/
def joined (pieces : List (List Char)) : List Char :=
  [' '].intercalate (pieces.filter fun w => !w.isEmpty)

/-- A further character: the space that is pending goes before it. -/
theorem joined_concat {init : List (List Char)} {w : List Char} {pending : Bool}
    (hword : w ≠ [] → pending = false)
    (hspace : w = [] → (init.filter fun w => !w.isEmpty) ≠ [] → pending = true) :
    joined (init ++ [w ++ [c]]) = joined (init ++ [w]) ++
      (if pending && !(joined (init ++ [w])).isEmpty then [' '] else []) ++ [c] := by
  have hnonempty : [w ++ [c]].filter (fun w => !w.isEmpty) = [w ++ [c]] := by simp
  -- The character begins a word or continues one; only before a new word a space is pending.
  by_cases hw : w = []
  · have hempty : [w].filter (fun w => !w.isEmpty) = [] := by simp [hw]
    rw [joined, joined, List.filter_append, List.filter_append, hnonempty, hempty, List.append_nil,
      intercalate_concat, hw, List.nil_append]
    congr 1
    by_cases hinit : (init.filter fun w => !w.isEmpty) = []
    · simp [hinit]
    · have hne : ([' '].intercalate (init.filter fun w => !w.isEmpty)).isEmpty = false := by
        obtain ⟨v, vs, hv⟩ := List.exists_cons_of_ne_nil hinit
        have hmem : v ∈ init.filter fun w => !w.isEmpty := hv ▸ List.mem_cons_self
        have hvne : v ≠ [] := by simpa using (List.mem_filter.mp hmem).2
        refine List.isEmpty_eq_false_iff.mpr fun hnil => hvne ?_
        exact List.infix_nil.mp (hnil ▸ infix_intercalate hmem)
      rw [if_neg hinit, hspace hw hinit, hne]
      rfl
  · have hword' : [w].filter (fun w => !w.isEmpty) = [w] := by simp [hw]
    rw [joined, joined, List.filter_append, List.filter_append, hnonempty, hword',
      intercalate_concat, intercalate_concat, hword hw]
    simp

/-- The words so far; the last piece is empty when a space is pending. -/
theorem foldl_safeStep (l : List Char) :
    (l.foldl safeStep ([], false)).1 = joined ((l.filter kept).splitOnP blank) ∧
      ∀ init w, (l.filter kept).splitOnP blank = init ++ [w] →
        (w = [] ↔ l.filter kept = [] ∨ (l.foldl safeStep ([], false)).2 = true) := by
  induction l using List.reverseRecOn with
  | nil =>
    refine ⟨rfl, fun init w h => ?_⟩
    have hnil : [] ++ [[]] = init ++ [w] := h
    obtain ⟨-, hw⟩ := List.append_inj' hnil rfl
    exact iff_of_true (List.cons.inj hw).1.symm (.inl rfl)
  | append_singleton l c ih =>
    obtain ⟨hout, hpending⟩ := ih
    rw [List.foldl_concat, List.filter_append]
    -- The loop goes from left to right, so the induction takes the last character off.
    by_cases hblank : blank c = true
    · have hkept : [c].filter kept = [c] := by simp [kept, hblank]
      rw [hkept, safeStep, if_pos hblank, List.splitOnP_append_cons _ _ hblank, List.splitOnP_nil]
      refine ⟨?_, fun init w h => ?_⟩
      · rw [hout, joined, joined, List.filter_append]
        simp
      · obtain ⟨-, hw⟩ := List.append_inj' h rfl
        simp [← (List.cons.inj hw).1]
    · rw [safeStep, if_neg hblank]
      by_cases hdropped : dropped c = true
      · have hkept : [c].filter kept = [] := by simp [kept, hblank, hdropped]
        rw [hkept, if_pos hdropped, List.append_nil]
        exact ⟨hout, hpending⟩
      · have hkept : [c].filter kept = [c] := by simp [kept, hdropped]
        obtain ⟨init, w, hf, hfc⟩ :=
          exists_splitOnP_concat (f := l.filter kept) (eq_false_of_ne_true hblank)
        have hlast := hpending init w hf
        rw [hkept, if_neg hdropped, hfc, hout, hf]
        refine ⟨(joined_concat (fun hw => ?_) fun hw hinit => ?_).symm, fun init' w' h => ?_⟩
        · exact eq_false_of_ne_true fun htrue => hw (hlast.mpr (.inr htrue))
        · refine (hlast.mp hw).resolve_left fun hnil => hinit ?_
          rw [hnil, List.splitOnP_nil] at hf
          have hnil' : [] ++ [[]] = init ++ [w] := hf
          obtain ⟨hinit', -⟩ := List.append_inj' hnil' rfl
          rw [← hinit']
          rfl
        · obtain ⟨-, hw'⟩ := List.append_inj' h rfl
          rw [← (List.cons.inj hw').1]
          simp

/-- **The character rules leave the words of a line, with a space between them.** -/
theorem operatorSafeChars_eq (s : String) : operatorSafeChars s = collapsed s := by
  rw [← String.toList_inj, operatorSafeChars, collapsed, String.toList_ofList,
    (foldl_safeStep s.toList).1, String.toList_intercalate, wordsBy, String.toList_ofList,
    List.map_map]
  simp [joined, Function.comp_def]

end Words

/-! ### Lines -/

section Lines

variable {s line : String} {c : Char}

theorem newline_notMem_lines (h : line ∈ lines s) : '\n' ∉ line.toList := by
  have hpieces : ∀ l ∈ s.toList.splitOnP (· == '\n'), '\n' ∉ l := by
    intro l hl
    rw [← List.splitOn_eq_splitOnP] at hl
    exact separator_notMem_splitOn l hl
  simp only [lines, List.mem_append, List.mem_map] at h
  -- The lines are the pieces but the last, and the last piece unless it is empty.
  rcases h with ⟨l, hl, rfl⟩ | h
  · rw [String.toList_ofList]
    intro hmem
    refine hpieces l (List.mem_of_mem_dropLast hl) ?_
    rw [withoutReturn] at hmem
    split_ifs at hmem
    · exact List.mem_of_mem_dropLast hmem
    · exact hmem
  · split_ifs at h with hlast
    · cases h
    · rw [List.mem_singleton.mp h, String.toList_ofList, List.getLastD_eq_getLast?,
        List.getLast?_eq_some_getLast (List.splitOnP_ne_nil _ _), Option.getD_some]
      exact hpieces _ (List.getLast_mem _)

/-- The lines of a text have its characters, but for what ends a line. -/
theorem filter_lines {p : Char → Bool} (hp : ∀ c, p c = true → stays c = true) (s : String) :
    (lines s).flatMap (fun line => line.toList.filter p) = s.toList.filter p := by
  have hnewline : p '\n' = false := eq_false_of_ne_true fun h => absurd (hp _ h) (by decide)
  have hend : p '\r' = false := eq_false_of_ne_true fun h => absurd (hp _ h) (by decide)
  have hreturn : ∀ l : List Char, (withoutReturn l).filter p = l.filter p := by
    intro l
    rw [withoutReturn]
    split_ifs with hlast
    · obtain ⟨front, rfl⟩ := List.getLast?_eq_some_iff.mp hlast
      rw [List.dropLast_concat, List.filter_append, List.filter_cons_of_neg (by simp [hend]),
        List.filter_nil, List.append_nil]
    · rfl
  -- The last piece is left out of the lines only when it is empty.
  have hpieces : s.toList.splitOnP (· == '\n') =
      (s.toList.splitOnP (· == '\n')).dropLast ++
        [(s.toList.splitOnP (· == '\n')).getLastD []] := by
    rw [List.getLastD_eq_getLast?, List.getLast?_eq_some_getLast (List.splitOnP_ne_nil _ _),
      Option.getD_some, List.dropLast_concat_getLast]
  have htext : s.toList = ['\n'].intercalate (s.toList.splitOnP (· == '\n')) := by
    rw [← List.splitOn_eq_splitOnP, List.intercalate_splitOn]
  rw [lines, List.flatMap_append, List.flatMap_map]
  simp only [String.toList_ofList, hreturn]
  conv_rhs => rw [htext, filter_intercalate hnewline, hpieces, List.flatMap_append]
  congr 1
  split_ifs with hlast
  · rw [hlast]
    rfl
  · simp

/-- Lines put together are the lines of the text. -/
theorem split_joined {ls : List String} (hne : ls ≠ []) (h : ∀ l ∈ ls, '\n' ∉ l.toList) :
    split '\n' (String.intercalate "\n" ls) = ls :=
  split_intercalate rfl hne h

theorem clean_joined {ls : List String} (h : ∀ l ∈ ls, '\n' ∉ l.toList) :
    Clean (String.intercalate "\n" ls) ↔ ∀ l ∈ ls, ∀ c ∈ l.toList, forbidden c = false := by
  by_cases hne : ls = []
  · rw [hne]
    refine iff_of_true ?_ fun l hl => absurd hl List.not_mem_nil
    intro l hl c hc
    have hempty : l ∈ [""] := hl
    rw [List.mem_singleton.mp hempty] at hc
    cases hc
  · rw [Clean, split_joined hne h]

theorem newline_notMem_indent (h : line ∈ lines s) : '\n' ∉ (indent line).toList := by
  rw [indent, String.toList_ofList]
  exact fun hmem => newline_notMem_lines h ((List.takeWhile_sublist _).mem hmem)

/-- Pieces that hold what they are for hold all of it when they are joined. -/
theorem sublist_intercalate {α β : Type} {sep : List β} {xs : List α} {f g : α → List β}
    (h : ∀ x ∈ xs, (f x).Sublist (g x)) : (xs.flatMap f).Sublist (sep.intercalate (xs.map g)) := by
  induction xs with
  | nil => exact List.nil_sublist _
  | cons x xs ih =>
    obtain ⟨hx, hxs⟩ := List.forall_mem_cons.mp h
    rw [List.flatMap_cons, List.map_cons]
    by_cases hnil : xs = []
    · subst hnil
      simpa using hx
    · have hne : xs.map g ≠ [] := List.map_eq_nil_iff.not.mpr hnil
      rw [List.intercalate_cons_of_ne_nil hne]
      refine List.Sublist.append ?_ (ih hxs)
      exact List.Sublist.trans hx (List.sublist_append_left _ _)

/-- A text whose lines keep their characters keeps its own. -/
theorem sublist_rendered {p : Char → Bool} (hp : ∀ c, p c = true → stays c = true)
    {render : String → String}
    (h : ∀ line ∈ lines s, (line.toList.filter p).Sublist (render line).toList) :
    (s.toList.filter p).Sublist (String.intercalate "\n" ((lines s).map render)).toList := by
  rw [← filter_lines hp s, String.toList_intercalate, List.map_map]
  exact sublist_intercalate h

end Lines

/-! ### What a block shows -/

section Block

variable {s line : String} {c : Char}

/-- The lines that are not withheld, as they are rendered. -/
def shownLines (s : String) : List String :=
  ((lines s).take maxRenderedLines).map fun line => indent line ++ operatorSafe line

/-- The line that says how many are missing. -/
def markerLines (s : String) : List String :=
  let withheld := (lines s).length - maxRenderedLines
  if 0 < withheld then [lineTruncationMarker ++ " (" ++ toString withheld ++ " more)"] else []

/-- The leading whitespace of a line is nothing a terminal reads. -/
def IndentedPlainly (line : String) : Prop := ∀ c ∈ (indent line).toList, forbidden c = false

/-- A line is not too wide with its indentation; one that is cut short has none. -/
def Fits (line : String) : Prop :=
  if (collapsed line).length ≤ maxRenderedLen then
    (indent line).length + (collapsed line).length ≤ maxRenderedLen + truncationMarker.length
  else (indent line).length = 0

theorem forbidden_operatorSafe (h : c ∈ (operatorSafe s).toList) : forbidden c = false := by
  have hmarker : truncationMarker.toList.any forbidden = false := by decide
  simp only [operatorSafe] at h
  split_ifs at h
  · rw [String.toList_append, List.mem_append, String.toList_ofList] at h
    rcases h with h | h
    · exact forbidden_eq_false (mem_operatorSafeChars (List.mem_of_mem_take h))
    · exact eq_false_of_any hmarker h
  · exact forbidden_eq_false (mem_operatorSafeChars h)

theorem forbidden_markerLines (h : line ∈ markerLines s) :
    ∀ c ∈ line.toList, forbidden c = false := by
  have hfront : (lineTruncationMarker ++ " (").toList.any forbidden = false := by decide
  have hback : " more)".toList.any forbidden = false := by decide
  have hdigit : ∀ c : Char, c.isDigit = true → forbidden c = false := by
    intro c hc
    refine forbidden_eq_false ?_
    simp only [Char.isDigit, Bool.and_eq_true, decide_eq_true_eq, UInt32.le_iff_toNat_le] at hc
    have hle : 48 ≤ c.toNat ∧ c.toNat ≤ 57 := hc
    simp only [dropped, Bool.or_eq_false_iff, Bool.and_eq_false_iff, decide_eq_false_iff_not,
      beq_eq_false_iff_ne]
    omega
  simp only [markerLines] at h
  split_ifs at h
  · rw [List.mem_singleton.mp h]
    intro c hc
    rw [String.toList_append, String.toList_append, List.mem_append, List.mem_append] at hc
    rcases hc with (hc | hc) | hc
    · exact eq_false_of_any hfront hc
    · exact hdigit c (isDigit_of_mem_toString hc)
    · exact eq_false_of_any hback hc
  · cases h

theorem length_operatorSafe (line : String) :
    (operatorSafe line).length =
      if (collapsed line).length ≤ maxRenderedLen then (collapsed line).length
      else maxRenderedLen + truncationMarker.length := by
  simp only [operatorSafe, operatorSafeChars_eq]
  split_ifs with hlt hle hle
  · omega
  · rw [String.length_append, String.length_ofList, List.length_take, String.length_toList]
    omega
  · rfl
  · omega

theorem fits_iff (line : String) :
    (indent line ++ operatorSafe line).length ≤ maxRenderedLen + truncationMarker.length ↔
      Fits line := by
  rw [String.length_append, length_operatorSafe, Fits]
  split_ifs <;> omega

theorem newline_notMem_of_forbidden {text : String}
    (h : ∀ c ∈ text.toList, forbidden c = false) : '\n' ∉ text.toList := fun hmem => by
  have hnewline : forbidden '\n' = true := by decide
  rw [h '\n' hmem] at hnewline
  cases hnewline

theorem newline_notMem_shown : ∀ l ∈ shownLines s ++ markerLines s, '\n' ∉ l.toList := by
  intro l hl
  rcases List.mem_append.mp hl with hl | hl
  · obtain ⟨line, hline, rfl⟩ := List.mem_map.mp hl
    rw [String.toList_append, List.mem_append]
    exact not_or.mpr ⟨newline_notMem_indent (List.mem_of_mem_take hline),
      newline_notMem_of_forbidden fun c hc => forbidden_operatorSafe hc⟩
  · exact newline_notMem_of_forbidden (forbidden_markerLines hl)

theorem text_operatorSafeBlock (s : String) :
    (operatorSafeBlock s).text = String.intercalate "\n" (shownLines s ++ markerLines s) := rfl

theorem clean_block_iff (s : String) :
    Clean (operatorSafeBlock s).text ↔
      ∀ line ∈ (lines s).take maxRenderedLines, IndentedPlainly line := by
  rw [text_operatorSafeBlock, clean_joined newline_notMem_shown]
  constructor
  · intro h line hline c hc
    refine h (indent line ++ operatorSafe line) ?_ c ?_
    · exact List.mem_append_left _ (List.mem_map_of_mem hline)
    · rw [String.toList_append]
      exact List.mem_append_left _ hc
  · intro h l hl c hc
    rcases List.mem_append.mp hl with hl | hl
    · obtain ⟨line, hline, rfl⟩ := List.mem_map.mp hl
      rw [String.toList_append, List.mem_append] at hc
      rcases hc with hc | hc
      · exact h line hline c hc
      · exact forbidden_operatorSafe hc
    · exact forbidden_markerLines hl c hc

theorem clean_full_iff (s : String) :
    Clean (operatorSafeBlockFull s).text ↔ ∀ line ∈ lines s, IndentedPlainly line := by
  have hrules : ∀ (line : String) (c : Char), c ∈ (operatorSafeUnbounded line).toList →
      forbidden c = false := fun line c hc => forbidden_eq_false (mem_operatorSafeChars hc)
  rw [operatorSafeBlockFull, clean_joined]
  · constructor
    · intro h line hline c hc
      refine h _ (List.mem_map_of_mem hline) c ?_
      rw [String.toList_append]
      exact List.mem_append_left _ hc
    · intro h l hl c hc
      obtain ⟨line, hline, rfl⟩ := List.mem_map.mp hl
      rw [String.toList_append, List.mem_append] at hc
      rcases hc with hc | hc
      · exact h line hline c hc
      · exact hrules line c hc
  · intro l hl
    obtain ⟨line, hline, rfl⟩ := List.mem_map.mp hl
    rw [String.toList_append, List.mem_append]
    exact not_or.mpr ⟨newline_notMem_indent hline, newline_notMem_of_forbidden (hrules line)⟩

/-- The lines of a block, before the line of its marker. -/
theorem lines_block (s : String) :
    (lines s = [] ∧ split '\n' (operatorSafeBlock s).text = [""]) ∨
      split '\n' (operatorSafeBlock s).text = shownLines s ++ markerLines s := by
  by_cases hnil : lines s = []
  · refine .inl ⟨hnil, ?_⟩
    have hshown : shownLines s ++ markerLines s = [] := by
      rw [shownLines, markerLines, hnil]
      rfl
    rw [text_operatorSafeBlock, hshown]
    decide
  · refine .inr (split_joined ?_ newline_notMem_shown)
    have hshown : shownLines s ≠ [] := by
      rw [shownLines]
      simpa [maxRenderedLines] using hnil
    exact List.append_ne_nil_of_left_ne_nil hshown _

theorem take_shown (s : String) :
    (shownLines s ++ markerLines s).take maxRenderedLines = shownLines s := by
  have hlength : (shownLines s).length = min maxRenderedLines (lines s).length := by
    rw [shownLines, List.length_map, List.length_take]
  rw [List.take_append, List.take_of_length_le (by omega), markerLines]
  split_ifs with hpos
  · rw [hlength, Nat.min_eq_left (by omega), Nat.sub_self, List.take_zero, List.append_nil]
  · rw [List.take_nil, List.append_nil]

theorem width_iff (s : String) :
    (∀ l ∈ (split '\n' (operatorSafeBlock s).text).take maxRenderedLines,
        l.length ≤ maxRenderedLen + truncationMarker.length) ↔
      ∀ line ∈ (lines s).take maxRenderedLines, Fits line := by
  rcases lines_block s with ⟨hnil, hlines⟩ | hlines
  · rw [hlines, hnil]
    exact iff_of_true (by decide) (by simp)
  · rw [hlines, take_shown, shownLines, List.forall_mem_map]
    exact forall₂_congr fun line _ => fits_iff line

theorem height_le (s : String) :
    (split '\n' (operatorSafeBlock s).text).length ≤
      maxRenderedLines + if (operatorSafeBlock s).withheldLines = 0 then 0 else 1 := by
  rcases lines_block s with ⟨-, hlines⟩ | hlines
  · rw [hlines]
    exact le_trans (by decide) (Nat.le_add_right _ _)
  · have hwithheld : (operatorSafeBlock s).withheldLines = (lines s).length - maxRenderedLines :=
      rfl
    rw [hlines, List.length_append, shownLines, List.length_map, List.length_take, markerLines,
      hwithheld]
    split_ifs
    · omega
    · simp only [List.length_singleton]
      omega
    · simp only [List.length_nil]
      omega
    · omega

/-- What is cut short ends with the marker. -/
theorem operatorSafe_of_not_marked (h : marked (operatorSafe line) = false) :
    operatorSafe line = operatorSafeChars line := by
  simp only [operatorSafe] at h ⊢
  split_ifs with hlt
  · rw [if_pos hlt, marked, String.toList_append, ← Bool.not_eq_true,
      List.isSuffixOf_iff_suffix] at h
    exact absurd (List.suffix_append _ _) h
  · rfl

/-- A line that is not cut short shows every character that stays. -/
theorem sublist_operatorSafeChars {p : Char → Bool} (hp : ∀ c, p c = true → stays c = true)
    (line : String) :
    (line.toList.filter p).Sublist (indent line ++ operatorSafeChars line).toList := by
  rw [String.toList_append, ← filter_operatorSafeChars hp]
  exact List.filter_sublist.trans (List.sublist_append_right _ _)

/-- **A complete block shows every character that stays**, in order. -/
theorem rendered_stays {p : Char → Bool} (hp : ∀ c, p c = true → stays c = true) (s : String) :
    ∀ block ∈ [operatorSafeBlock s, operatorSafeBlockFull s], block.isComplete = true →
      (s.toList.filter p).Sublist block.text.toList := by
  intro block hblock hcomplete
  simp only [List.mem_cons, List.not_mem_nil, or_false] at hblock
  rcases hblock with rfl | rfl
  · simp only [OperatorBlock.isComplete, Bool.and_eq_true, beq_iff_eq] at hcomplete
    obtain ⟨hwithheld, hshortened⟩ := hcomplete
    have hle : (lines s).length ≤ maxRenderedLines := Nat.le_of_sub_eq_zero hwithheld
    have hall : (lines s).take maxRenderedLines = lines s := List.take_of_length_le hle
    have hmarkers : markerLines s = [] := by
      rw [markerLines]
      exact if_neg (by omega)
    rw [text_operatorSafeBlock, hmarkers, List.append_nil, shownLines, hall]
    refine sublist_rendered hp fun line hline => ?_
    have hcount : (lines s).countP (fun line => marked (operatorSafe line)) = 0 := by
      rw [← hall]
      exact hshortened
    have hmarked := List.countP_eq_zero.mp hcount line hline
    rw [operatorSafe_of_not_marked (eq_false_of_ne_true hmarked)]
    exact sublist_operatorSafeChars hp line
  · exact sublist_rendered hp fun line _ => sublist_operatorSafeChars hp line

/-- So it shows every visible character. -/
theorem rendered_shown (s : String) :
    ∀ block ∈ [operatorSafeBlock s, operatorSafeBlockFull s], block.isComplete = true →
      (s.toList.filter visible).Sublist block.text.toList :=
  rendered_stays (fun _ => stays_of_visible) s

/-- **A text is rendered safely exactly when the indentation of its lines does no harm**: no line is
indented with a control character or a separator, and the lines that are shown are not too wide
with their indentation. -/
theorem rendering_safe_iff (s : String) :
    Neutralised s ↔ (∀ line ∈ lines s, IndentedPlainly line) ∧
      ∀ line ∈ (lines s).take maxRenderedLines, Fits line := by
  rw [← clean_full_iff, ← width_iff]
  constructor
  · intro h
    exact ⟨h.cleanFull, h.width⟩
  · rintro ⟨hfull, hwidth⟩
    have hplain := (clean_full_iff s).mp hfull
    have hshown : ∀ line ∈ (lines s).take maxRenderedLines, IndentedPlainly line :=
      fun line hline => hplain line (List.mem_of_mem_take hline)
    exact
      { clean := (clean_block_iff s).mpr hshown
        cleanFull := hfull
        width := hwidth
        height := height_le s
        complete := rendered_shown s }

/-- A carriage return at the start of a line is printed. -/
theorem return_rendered : ¬∀ s, Neutralised s := by
  intro h
  have hplain := (h "\rremove nothing").clean
  exact absurd (hplain "\rremove nothing" (by decide) '\r' (by decide)) (by decide)

end Block

end Sysknife.OperatorText
