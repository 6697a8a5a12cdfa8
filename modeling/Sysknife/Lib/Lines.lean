import Mathlib.Data.List.Flatten
import Mathlib.Tactic.SplitIfs

/-!
# Lines with their terminator and without

A text is cut after each occurrence of a terminator, and only the last piece can lack one. An
edit that works on one line at a time is a `flatMap` over the pieces; `Lines.induction` is the
induction its proofs go by. `Lines.lines` are the pieces without their terminators.
-/

namespace Lines

variable {α : Type} [DecidableEq α] {nl : α} {body : List α}

/-- Cut after every `nl`. -/
def cut (nl : α) : List α → List (List α)
  | [] => []
  | c :: rest =>
    if c = nl then [c] :: cut nl rest
    else
      match cut nl rest with
      | [] => [[c]]
      | line :: lines => (c :: line) :: lines

@[simp]
theorem cut_nil : cut nl [] = [] := rfl

/-- Text without a terminator is one piece. -/
theorem cut_of_notMem (h : nl ∉ body) (hne : body ≠ []) : cut nl body = [body] := by
  induction body with
  | nil => exact absurd rfl hne
  | cons c body ih =>
    obtain ⟨hc, hbody⟩ := List.ne_and_not_mem_of_not_mem_cons h
    by_cases hempty : body = []
    · simp [hempty, cut, Ne.symm hc]
    · simp [cut, Ne.symm hc, ih hbody hempty]

/-- The first terminator closes the first piece. -/
theorem cut_line (h : nl ∉ body) (rest : List α) :
    cut nl (body ++ nl :: rest) = (body ++ [nl]) :: cut nl rest := by
  induction body with
  | nil => simp [cut]
  | cons c body ih =>
    obtain ⟨hc, hbody⟩ := List.ne_and_not_mem_of_not_mem_cons h
    simp [cut, Ne.symm hc, ih hbody]

/-- Induction over the lines of a text: the unterminated rest, and one terminated line in front
of a text. -/
theorem induction (nl : α) {P : List α → Prop} (last : ∀ body, nl ∉ body → P body)
    (line : ∀ body rest, nl ∉ body → P rest → P (body ++ nl :: rest)) (text : List α) :
    P text := by
  induction hn : text.length using Nat.strongRecOn generalizing text with
  | ind n ih =>
    by_cases h : nl ∈ text
    · obtain ⟨body, rest, rfl, hbody⟩ := List.eq_append_cons_of_mem h
      refine line body rest hbody (ih rest.length ?_ rest rfl)
      rw [← hn, List.length_append, List.length_cons]
      omega
    · exact last text h

/-- The pieces are the text, cut. -/
@[simp]
theorem flatten_cut (text : List α) : (cut nl text).flatten = text := by
  induction text using induction nl with
  | last body h =>
    by_cases hne : body = []
    · simp [hne]
    · simp [cut_of_notMem h hne]
  | line body rest h ih => simp [cut_line h, ih]

/-- Behind a terminator the cut starts afresh. -/
theorem cut_append_terminated (text rest : List α) :
    cut nl (text ++ nl :: rest) = cut nl (text ++ [nl]) ++ cut nl rest := by
  induction text using induction nl with
  | last body h => simp [cut_line h]
  | line body text h ih => simp [cut_line h, ih]

omit [DecidableEq α] in
/-- A text loses something with every piece that is dropped. -/
theorem flatten_filter_eq_iff {p : List α → Bool} {pieces : List (List α)}
    (h : ∀ piece ∈ pieces, p piece = false → piece ≠ []) :
    (pieces.filter p).flatten = pieces.flatten ↔ ∀ piece ∈ pieces, p piece = true := by
  refine ⟨fun heq => ?_, fun hall => by rw [List.filter_eq_self.mpr hall]⟩
  induction pieces with
  | nil => simp
  | cons piece pieces ih =>
    have hpieces := fun l hl => h l (List.mem_cons_of_mem piece hl)
    cases hp : p piece with
    | true =>
      rw [List.filter_cons_of_pos hp, List.flatten_cons, List.flatten_cons,
        List.append_cancel_left_eq] at heq
      simpa [hp] using ih hpieces heq
    | false =>
      have hle : (pieces.filter p).flatten.length ≤ pieces.flatten.length :=
        List.filter_sublist.flatten.length_le
      have hpos := List.length_pos_iff.mpr (h piece List.mem_cons_self hp)
      rw [List.filter_cons_of_neg (by simp [hp])] at heq
      have hlength := congrArg List.length heq
      rw [List.flatten_cons, List.length_append] at hlength
      omega

omit [DecidableEq α] in
/-- The last occurrence of a character of the text. -/
theorem exists_last {c : α} {text : List α} (h : c ∈ text) :
    ∃ x t, text = x ++ c :: t ∧ c ∉ t := by
  obtain ⟨t, x, hreverse, ht⟩ := List.eq_append_cons_of_mem (List.mem_reverse.mpr h)
  refine ⟨x.reverse, t.reverse, ?_, by simpa using ht⟩
  simpa using congrArg List.reverse hreverse

omit [DecidableEq α] in
/-- Two texts differ where one is over and the other one goes on. -/
theorem not_prefix_of_notMem {c d : α} {a b w : List α} (hcd : c ≠ d) (hd : d ∉ a) (hc : c ∉ b) :
    ¬ a ++ [c] <+: b ++ d :: w := by
  induction a generalizing b with
  | nil =>
    cases b with
    | nil => simpa [List.cons_prefix_cons] using hcd
    | cons e b => simpa [List.cons_prefix_cons] using List.ne_of_not_mem_cons hc
  | cons e a ih =>
    obtain ⟨hde, hd⟩ := List.ne_and_not_mem_of_not_mem_cons hd
    cases b with
    | nil => simpa [List.cons_prefix_cons] using fun h => absurd h.symm hde
    | cons f b =>
      rw [List.cons_append, List.cons_append, List.cons_prefix_cons]
      exact fun h => ih hd (List.not_mem_of_not_mem_cons hc) h.2

omit [DecidableEq α] in
/-- The first line of a text. -/
theorem eq_of_prefix {c : α} {a b w : List α} (ha : c ∉ a) (hb : c ∉ b)
    (h : a ++ [c] <+: b ++ c :: w) : a = b := by
  induction a generalizing b with
  | nil =>
    cases b with
    | nil => rfl
    | cons e b =>
      exact absurd (List.cons_prefix_cons.mp h).1 (List.ne_of_not_mem_cons hb)
  | cons e a ih =>
    cases b with
    | nil => exact absurd (List.cons_prefix_cons.mp h).1.symm (List.ne_of_not_mem_cons ha)
    | cons f b =>
      obtain ⟨rfl, htail⟩ := List.cons_prefix_cons.mp h
      rw [ih (List.not_mem_of_not_mem_cons ha) (List.not_mem_of_not_mem_cons hb) htail]

/-! ### Lines without their terminator -/

/-- A line without a `cr` at its end. -/
def dropReturn (cr : α) (line : List α) : List α :=
  if line.getLast? = some cr then line.dropLast else line

/-- A line without its terminator, and without the `cr` that belongs to the terminator. -/
def chomp (nl cr : α) (line : List α) : List α :=
  if line.getLast? = some nl then dropReturn cr line.dropLast else line

/-- The lines of a text; what follows the last terminator is a line as it stands, unless it is
empty. -/
def lines (nl cr : α) (text : List α) : List (List α) := (cut nl text).map (chomp nl cr)

/-- The text is over or its last line is terminated. -/
def Closed (nl : α) (text : List α) : Prop := text = [] ∨ text.getLast? = some nl

instance (text : List α) : Decidable (Closed nl text) := inferInstanceAs (Decidable (_ ∨ _))

section Chomp

variable {cr : α}

theorem dropReturn_eq_self_iff {line : List α} :
    dropReturn cr line = line ↔ line.getLast? ≠ some cr := by
  rw [dropReturn]
  split_ifs with h
  · refine iff_of_false (fun heq => ?_) (fun hne => hne h)
    have hlength := congrArg List.length heq
    have hne : line ≠ [] := by
      rintro rfl
      cases h
    have hpos := List.length_pos_iff.mpr hne
    rw [List.length_dropLast] at hlength
    omega
  · exact iff_of_true rfl h

theorem dropReturn_prefix_self (line : List α) : dropReturn cr line <+: line := by
  rw [dropReturn]
  split_ifs
  · exact List.dropLast_prefix line
  · exact List.prefix_rfl

theorem lines_last (h : nl ∉ body) (hne : body ≠ []) : lines nl cr body = [body] := by
  have hlast : body.getLast? ≠ some nl := fun hlast => h (List.mem_of_getLast? hlast)
  rw [lines, cut_of_notMem h hne, List.map_singleton, chomp, if_neg hlast]

theorem lines_line (h : nl ∉ body) (rest : List α) :
    lines nl cr (body ++ nl :: rest) = dropReturn cr body :: lines nl cr rest := by
  rw [lines, cut_line h, List.map_cons, chomp, if_pos List.getLast?_concat, List.dropLast_concat,
    lines]

/-- No line holds a terminator. -/
theorem notMem_of_mem_lines {line text : List α} (h : line ∈ lines nl cr text) : nl ∉ line := by
  induction text using induction nl with
  | last body hbody =>
    by_cases hne : body = []
    · rw [hne] at h
      exact absurd h List.not_mem_nil
    · rw [lines_last hbody hne, List.mem_singleton] at h
      exact h ▸ hbody
  | line body rest hbody ih =>
    rw [lines_line hbody, List.mem_cons] at h
    rcases h with rfl | h
    · exact fun hmem => hbody ((dropReturn_prefix_self body).subset hmem)
    · exact ih h

/-- Every line stands in the text. -/
theorem infix_of_mem_lines {line text : List α} (h : line ∈ lines nl cr text) : line <:+: text := by
  induction text using induction nl with
  | last body hbody =>
    by_cases hne : body = []
    · rw [hne] at h
      exact absurd h List.not_mem_nil
    · rw [lines_last hbody hne, List.mem_singleton] at h
      exact h ▸ List.infix_rfl
  | line body rest hbody ih =>
    rw [lines_line hbody, List.mem_cons] at h
    rcases h with rfl | h
    · exact (dropReturn_prefix_self body).isInfix.trans (List.prefix_append body _).isInfix
    · exact (ih h).trans ((List.suffix_cons nl rest).trans (List.suffix_append body _)).isInfix

/-- Behind a closed text the lines start afresh. -/
theorem lines_append {text : List α} (h : Closed nl text) (rest : List α) :
    lines nl cr (text ++ rest) = lines nl cr text ++ lines nl cr rest := by
  rcases h with rfl | h
  · rfl
  · obtain ⟨front, rfl⟩ := List.getLast?_eq_some_iff.mp h
    rw [List.append_assoc, List.singleton_append, lines, cut_append_terminated, List.map_append]
    rfl

/-- A text that is not closed ends in a line without its terminator. -/
theorem exists_last_line {text : List α} (h : ¬ Closed nl text) :
    ∃ front body, text = front ++ body ∧ Closed nl front ∧ nl ∉ body ∧ body ≠ [] := by
  obtain ⟨hne, hlast⟩ := not_or.mp h
  by_cases hmem : nl ∈ text
  · obtain ⟨x, t, rfl, ht⟩ := exists_last hmem
    refine ⟨x ++ [nl], t, by simp, .inr List.getLast?_concat, ht, ?_⟩
    rintro rfl
    exact hlast List.getLast?_concat
  · exact ⟨[], text, rfl, .inl rfl, hmem, hne⟩

/-- A line that is written behind a text is a line of its own if and only if the text is closed;
otherwise it is the end of the last line. -/
theorem lines_append_line_iff {text line : List α} (hline : nl ∉ line)
    (hreturn : line.getLast? ≠ some cr) :
    lines nl cr (text ++ (line ++ [nl])) = lines nl cr text ++ [line] ↔ Closed nl text := by
  have halone : lines nl cr (line ++ [nl]) = [line] := by
    rw [lines_line hline, dropReturn_eq_self_iff.mpr hreturn]
    rfl
  by_cases h : Closed nl text
  · rw [lines_append h, halone]
    exact iff_of_true rfl h
  · refine iff_of_false (fun heq => ?_) h
    obtain ⟨front, body, rfl, hfront, hbody, hne⟩ := exists_last_line h
    have hglued : nl ∉ body ++ line := by
      rw [List.mem_append, not_or]
      exact ⟨hbody, hline⟩
    rw [List.append_assoc, ← List.append_assoc body, lines_append hfront, lines_line hglued,
      lines_append hfront, lines_last hbody hne] at heq
    have hlength := congrArg List.length heq
    simp [lines] at hlength

/-- Lines that are written one by one are read again, but for a `cr` at their ends. -/
theorem lines_flatMap {ls : List (List α)} (h : ∀ l ∈ ls, nl ∉ l) :
    lines nl cr (ls.flatMap (· ++ [nl])) = ls.map (dropReturn cr) := by
  induction ls with
  | nil => rfl
  | cons l ls ih =>
    obtain ⟨hl, hls⟩ := List.forall_mem_cons.mp h
    rw [List.flatMap_cons, List.append_assoc, List.singleton_append, lines_line hl, ih hls,
      List.map_cons]

/-- They are the same lines if and only if none ends in `cr`. -/
theorem lines_flatMap_eq_self_iff {ls : List (List α)} (h : ∀ l ∈ ls, nl ∉ l) :
    lines nl cr (ls.flatMap (· ++ [nl])) = ls ↔ ∀ l ∈ ls, l.getLast? ≠ some cr := by
  rw [lines_flatMap h]
  simp only [← dropReturn_eq_self_iff]
  refine ⟨fun heq l hl => ?_, fun hall => ?_⟩
  · exact List.map_eq_map_iff.mp (heq.trans (List.map_id ls).symm) l hl
  · exact (List.map_congr_left hall).trans (List.map_id ls)

end Chomp

end Lines
