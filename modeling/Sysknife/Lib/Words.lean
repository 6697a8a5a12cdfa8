import Mathlib.Data.List.DropRight

/-!
# The words of a list

The nonempty pieces of a list between separators, as a split at whitespace gives them. A list is
taken apart word by word (`wordsInduction`), and put together from words (`words_intercalate`).
-/

namespace Words

variable {α : Type} {p : α → Bool} {a b l w rest : List α} {c : α}

/-- The nonempty pieces between separators. -/
def words (p : α → Bool) (l : List α) : List (List α) :=
  (l.splitOnP p).filter fun w => !w.isEmpty

/-- A list that does not begin within a word. -/
def AtBreak (p : α → Bool) (l : List α) : Prop := ∀ c ∈ l.head?, p c = true

@[simp]
theorem words_nil : words p [] = [] := rfl

theorem words_append_cons (hc : p c = true) : words p (a ++ c :: b) = words p a ++ words p b := by
  rw [words, List.splitOnP_append_cons a b hc, List.filter_append]
  rfl

theorem words_cons (hc : p c = true) : words p (c :: l) = words p l :=
  words_append_cons (a := []) hc

theorem words_of_forall (hne : w ≠ []) (hw : ∀ c ∈ w, p c = false) : words p w = [w] := by
  rw [words, List.splitOnP_eq_singleton hw]
  simpa using hne

/-- A word and what follows it. -/
theorem words_append (hne : w ≠ []) (hw : ∀ c ∈ w, p c = false) (hrest : AtBreak p rest) :
    words p (w ++ rest) = w :: words p rest := by
  cases rest with
  | nil => rw [List.append_nil, words_of_forall hne hw, words_nil]
  | cons c rest =>
    have hc : p c = true := hrest c rfl
    rw [words_append_cons hc, words_of_forall hne hw, words_cons hc, List.singleton_append]

/-- A list is empty, or begins with a separator or with a word. -/
theorem wordsInduction {P : List α → Prop} (nil : P [])
    (separator : ∀ c l, p c = true → P l → P (c :: l))
    (word : ∀ w rest, w ≠ [] → (∀ c ∈ w, p c = false) → AtBreak p rest → P rest →
      P (w ++ rest)) (l : List α) : P l := by
  induction hn : l.length using Nat.strong_induction_on generalizing l with
  | _ n ih =>
    cases l with
    | nil => exact nil
    | cons c l =>
      by_cases hc : p c = true
      · refine separator c l hc (ih l.length ?_ l rfl)
        rw [← hn, List.length_cons]
        omega
      · have hcut := List.takeWhile_append_dropWhile (p := fun c => !p c) (l := c :: l)
        have hshort : ((c :: l).dropWhile fun c => !p c).length < n := by
          rw [List.dropWhile_cons_of_pos (by simpa using hc), ← hn, List.length_cons]
          have hle := (List.dropWhile_sublist (l := l) fun c => !p c).length_le
          omega
        rw [← hcut]
        refine word _ _ ?_ (fun d hd => ?_) (fun d hd => ?_) (ih _ hshort _ rfl)
        · rw [List.takeWhile_cons_of_pos (by simpa using hc)]
          exact List.cons_ne_nil _ _
        · simpa using List.all_eq_true.mp List.all_takeWhile d hd
        · have hhead := List.head?_dropWhile_not (fun c => !p c) (c :: l)
          rw [Option.mem_def.mp hd] at hhead
          simpa using hhead

theorem mem_words (h : w ∈ words p l) : w ≠ [] ∧ (∀ c ∈ w, p c = false) ∧ ∀ c ∈ w, c ∈ l := by
  induction l using wordsInduction (p := p) with
  | nil => cases h
  | separator c l hc ih =>
    rw [words_cons hc] at h
    obtain ⟨hne, hsep, hmem⟩ := ih h
    exact ⟨hne, hsep, fun d hd => List.mem_cons_of_mem c (hmem d hd)⟩
  | word v rest hne hv hrest ih =>
    rw [words_append hne hv hrest, List.mem_cons] at h
    rcases h with rfl | h
    · exact ⟨hne, hv, fun d hd => List.mem_append_left rest hd⟩
    · obtain ⟨hne', hsep, hmem⟩ := ih h
      exact ⟨hne', hsep, fun d hd => List.mem_append_right v (hmem d hd)⟩

/-- What is no separator stands in a word. -/
theorem exists_mem_words (hc : p c = false) (h : c ∈ l) : ∃ w ∈ words p l, c ∈ w := by
  induction l using wordsInduction (p := p) with
  | nil => cases h
  | separator d l hd ih =>
    have hl : c ∈ l := by
      refine (List.mem_cons.mp h).resolve_left fun heq => ?_
      rw [heq, hd] at hc
      cases hc
    rw [words_cons hd]
    exact ih hl
  | word w rest hne hw hrest ih =>
    rw [words_append hne hw hrest]
    rcases List.mem_append.mp h with h | h
    · exact ⟨w, List.mem_cons_self, h⟩
    · obtain ⟨v, hv, hcv⟩ := ih h
      exact ⟨v, List.mem_cons_of_mem w hv, hcv⟩

theorem words_dropWhile : words p (l.dropWhile p) = words p l := by
  induction l with
  | nil => rfl
  | cons c l ih =>
    by_cases hc : p c = true
    · rw [List.dropWhile_cons_of_pos hc, words_cons hc, ih]
    · rw [List.dropWhile_cons_of_neg hc]

theorem words_concat (hc : p c = true) : words p (l ++ [c]) = words p l := by
  rw [words_append_cons hc, words_nil, List.append_nil]

theorem words_rdropWhile : words p (l.rdropWhile p) = words p l := by
  induction l using List.reverseRecOn with
  | nil => rfl
  | append_singleton l c ih =>
    rw [List.rdropWhile_concat]
    split_ifs with hc
    · rw [ih, words_concat hc]
    · rfl

/-- Words put together with separators between them. -/
theorem words_intercalate {ls : List (List α)} (hc : p c = true)
    (h : ∀ w ∈ ls, w ≠ [] ∧ ∀ d ∈ w, p d = false) : words p ([c].intercalate ls) = ls := by
  induction ls with
  | nil => rfl
  | cons w ls ih =>
    obtain ⟨hne, hw⟩ := h w List.mem_cons_self
    by_cases hnil : ls = []
    · rw [hnil, List.intercalate_singleton, words_of_forall hne hw]
    · rw [List.intercalate_cons_of_ne_nil hnil, List.append_assoc, List.singleton_append,
        words_append_cons hc, words_of_forall hne hw,
        ih fun v hv => h v (List.mem_cons_of_mem w hv),
        List.singleton_append]

/-- What ends in a word is cut before its last one. -/
theorem exists_last_word (hne : l ≠ []) (h : ∀ c ∈ l.getLast?, p c = false) :
    ∃ a w, l = a ++ w ∧ words p l = words p a ++ [w] ∧ ∀ c ∈ a.getLast?, p c = true := by
  have hcut := List.rdropWhile_append_rtakeWhile (p := fun c => !p c) (l := l)
  have hw : ∀ c ∈ l.rtakeWhile fun c => !p c, p c = false := fun c hc => by
    simpa using List.mem_rtakeWhile_imp hc
  have hwne : (l.rtakeWhile fun c => !p c) ≠ [] := by
    intro hnil
    have hlast := h (l.getLast hne) (List.getLast?_eq_some_getLast hne)
    have hnot := List.rtakeWhile_eq_nil_iff.mp hnil hne
    rw [hlast] at hnot
    exact hnot rfl
  have hbreak : ∀ c ∈ (l.rdropWhile fun c => !p c).getLast?, p c = true := by
    intro c hc
    have hane : (l.rdropWhile fun c => !p c) ≠ [] := by
      intro hnil
      rw [hnil] at hc
      cases hc
    have hnot := List.rdropWhile_last_not (fun c => !p c) l hane
    rw [List.getLast?_eq_some_getLast hane, Option.mem_some] at hc
    rw [hc] at hnot
    simpa using hnot
  refine ⟨_, _, hcut.symm, ?_, hbreak⟩
  generalize (l.rdropWhile fun c => !p c) = a at hcut hbreak ⊢
  generalize (l.rtakeWhile fun c => !p c) = w at hcut hw hwne ⊢
  rcases List.eq_nil_or_concat a with rfl | ⟨a, c, rfl⟩
  · rw [← hcut, List.nil_append, words_of_forall hwne hw, words_nil, List.nil_append]
  · have hc : p c = true := hbreak c (by simp)
    rw [← hcut, List.concat_eq_append, List.append_assoc, List.singleton_append,
      words_append_cons hc, words_concat hc, words_of_forall hwne hw]

end Words
