import Sysknife.Brain.Planner
import Sysknife.Shell.State

/-!
# The review of an execution

`review_execution` in `commands.rs` writes down what the steps of an execution printed and asks
the planner for a summary of it. Of each step it shows the first lines, and of a long line the first
bytes: a slice at a fixed offset, which stops the program where the offset is within a character.

* `outputText_ok_iff`: the text is built if and only if each long line that is shown can be cut.
* `reviewed_iff`: **the review is built and shows what it should if and only if no line that is
  shown and longer than 500 bytes has a character across the 500th byte.**
-/

namespace Sysknife.Shell

open Brain Slices

/-! ### What the planner is asked -/

section Summarize

variable {σ : Type} (lib : Library) (p : Planner σ)

def summarySystem : String :=
  "You are a concise technical writer. Respond with a short plain-language summary. " ++
    "Do not use markdown formatting."

/-- The texts of a completion, one below the other. -/
def completionText (completion : Completion) : String :=
  "\n".intercalate (completion.content.filterMap fun
    | .text text => some text
    | _ => none)

/-- `summarize`: one call, without tools. -/
def summarize (prompt : String) (host : Host σ) : Except PlanningError String × Host σ :=
  match admitRequest lib p prompt host with
  | (.error e, host) => (.error e, host)
  | (.ok (), host) =>
    let (answer, world) := p.complete summarySystem [.userText prompt] [] host.world
    let host := { host with world := world }
    match answer with
    | .error e => (.error (.provider e), host)
    | .ok completion =>
      let text := completionText completion
      if text = "" then (.error .noPlanProposed, host) else (.ok text, host)

end Summarize

/-! ### What the steps printed -/

/-- `MAX_LINES` -/
def maxLines : ℕ := 50

/-- `MAX_LINE_LEN` -/
def maxLineLen : ℕ := 500

/-- `char::is_control` -/
def isControl (c : Char) : Bool :=
  decide (c.toNat < 0x20) || (decide (0x7F ≤ c.toNat) && decide (c.toNat ≤ 0x9F))

def sanitizeIntentForPrompt (intent : String) (maxLen : ℕ) : String :=
  String.ofList ((intent.toList.filter fun c => !isControl c && c != '"').take maxLen)

/-- A line, or `&line[..MAX_LINE_LEN]` of it. -/
def truncateLine (line : String) : Except Panic (List Char) :=
  if maxLineLen < size line.toList then slice line.toList 0 maxLineLen else .ok line.toList

/-- A line of the text, indented. -/
def shownLine (line : List Char) : List Char := "  ".toList ++ (line ++ ['\n'])

/-- The line that stands for those that are left out. -/
def moreLines (n : ℕ) : List Char := ("  ... (" ++ toString n ++ " more lines)\n").toList

def stepHeader (step : StepOutput) : List Char :=
  ("Step: " ++ step.actionName ++ " (" ++ step.status ++ ")\n").toList

def stepText (step : StepOutput) : Except Panic (List Char) := do
  let lines ← (step.outputLines.take maxLines).mapM truncateLine
  let more := if maxLines < step.outputLines.length then
      moreLines (step.outputLines.length - maxLines)
    else []
  return stepHeader step ++ (lines.flatMap shownLine ++ (more ++ ['\n']))

def outcomeHeader (result : ExecutionResult) : List Char :=
  ("Outcome: " ++ result.outcome ++ "\n\n").toList

def outputText (result : ExecutionResult) : Except Panic (List Char) := do
  let steps ← result.stepOutputs.mapM stepText
  return outcomeHeader result ++ steps.flatten

def summaryIntent (intent : String) (outputText : List Char) : String :=
  "Summarize the following SysKnife execution result in 2-3 plain-language sentences for the " ++
    "user. The user's original task was: " ++ sanitizeIntentForPrompt intent 500 ++ ". " ++
    "Explain what happened and whether the task was successful. " ++
    "If there were errors, mention them briefly. Do not propose a plan — just summarize.\n\n" ++
    "Execution output:\n" ++ String.ofList outputText

section Review

variable {σ : Type} (lib : Library) (p : Planner σ)

/-- The planner's summary of an execution, or else the text itself. -/
def reviewExecution (result : ExecutionResult) (intent : String) (host : Host σ) :
    Except Panic (String × Host σ) := do
  let text ← outputText result
  match summarize lib p (summaryIntent intent text) host with
  | (.ok summary, host) => return (summary, host)
  | (.error _, host) => return (String.ofList text, host)

end Review

/-! ### What a review shows -/

/-- A step as it is to be shown: some of its first lines, each from its front on, and how many there
are besides. -/
structure ShowsStep (step : StepOutput) (text : List Char) : Prop where
  shown : ∃ (lines : List (List Char)) (omitted : ℕ), lines.length ≤ maxLines ∧
    lines.length + omitted = step.outputLines.length ∧
    List.Forall₂ (fun line shown => shown <+: line.toList ∧ size shown ≤ maxLineLen)
      (step.outputLines.take lines.length) lines ∧
    text = stepHeader step ++ (lines.flatMap shownLine ++
      ((if omitted = 0 then [] else moreLines omitted) ++ ['\n']))

/-- The text of an execution, step by step. -/
def Shows (result : ExecutionResult) (text : List Char) : Prop :=
  ∃ parts, List.Forall₂ ShowsStep result.stepOutputs parts ∧
    text = outcomeHeader result ++ parts.flatten

/-- The review does not stop, and its text shows every step. -/
def Reviewed {σ : Type} (lib : Library) (p : Planner σ) (result : ExecutionResult)
    (intent : String) (host : Host σ) : Prop :=
  ∃ text, Shows result text ∧ reviewExecution lib p result intent host =
    match summarize lib p (summaryIntent intent text) host with
    | (.ok summary, host) => .ok (summary, host)
    | (.error _, host) => .ok (String.ofList text, host)

/-- No long line that is shown has a character across the offset it is cut at. -/
def Cuttable (result : ExecutionResult) : Prop :=
  ∀ step ∈ result.stepOutputs, ∀ line ∈ step.outputLines.take maxLines,
    maxLineLen < size line.toList → Boundary line.toList maxLineLen

/-! ### When it is built -/

/-- Collecting from a list collects from each item. -/
theorem mapM_eq_ok_iff {α β ε : Type} {f : α → Except ε β} {xs : List α} {ys : List β} :
    xs.mapM f = .ok ys ↔ List.Forall₂ (fun x y => f x = .ok y) xs ys := by
  induction xs generalizing ys with
  | nil =>
    rw [List.mapM_nil, List.forall₂_nil_left_iff]
    exact ⟨fun h => (Except.ok.inj h).symm, fun h => by rw [h]; rfl⟩
  | cons x xs ih =>
    rw [List.mapM_cons, bind_eq_ok_iff]
    constructor
    · rintro ⟨y, hy, h⟩
      obtain ⟨ys, hys, h⟩ := exists_of_bind_eq_ok h
      obtain rfl := Except.ok.inj h
      exact .cons hy (ih.mp hys)
    · rintro (_ | ⟨hy, hys⟩)
      exact ⟨_, hy, bind_eq_ok_iff.mpr ⟨_, ih.mpr hys, rfl⟩⟩

theorem exists_mapM_iff {α β ε : Type} {f : α → Except ε β} {xs : List α} :
    (∃ ys, xs.mapM f = .ok ys) ↔ ∀ x ∈ xs, ∃ y, f x = .ok y := by
  simp only [mapM_eq_ok_iff]
  induction xs with
  | nil => exact iff_of_true ⟨[], .nil⟩ nofun
  | cons x xs ih =>
    rw [List.forall_mem_cons, ← ih]
    constructor
    · rintro ⟨_, _ | ⟨hy, hys⟩⟩
      exact ⟨⟨_, hy⟩, _, hys⟩
    · rintro ⟨⟨y, hy⟩, ys, hys⟩
      exact ⟨y :: ys, .cons hy hys⟩

/-- A slice from the front ends at a boundary. -/
theorem slice_zero_eq_ok {s a : List Char} {n : ℕ} :
    slice s 0 n = .ok a ↔ ∃ b, s = a ++ b ∧ size a = n := by
  have hzero : cut 0 s = some ([], s) := cut_size_append [] s
  rw [slice, if_neg (Nat.not_lt_zero n), hzero]
  simp only [Nat.sub_zero]
  cases hcut : cut n s with
  | none =>
    constructor
    · intro h
      cases h
    · rintro ⟨b, hsplit⟩
      rw [cut_eq_some.mpr hsplit] at hcut
      cases hcut
  | some parts =>
    obtain ⟨a', b'⟩ := parts
    have hsplit := cut_eq_some.mp hcut
    constructor
    · intro h
      obtain rfl := Except.ok.inj h
      exact ⟨b', hsplit⟩
    · rintro ⟨b, hb⟩
      rw [cut_eq_some.mpr hb] at hcut
      obtain ⟨rfl, -⟩ := Prod.mk.inj (Option.some.inj hcut)
      rfl

/-- What is shown of a line is its front. -/
theorem front_of_truncateLine {line : String} {shown : List Char}
    (h : truncateLine line = .ok shown) : shown <+: line.toList ∧ size shown ≤ maxLineLen := by
  rw [truncateLine] at h
  split_ifs at h with hlong
  · obtain ⟨b, hline, hsize⟩ := slice_zero_eq_ok.mp h
    exact ⟨⟨b, hline.symm⟩, hsize.le⟩
  · obtain rfl := Except.ok.inj h
    exact ⟨List.prefix_rfl, not_lt.mp hlong⟩

theorem exists_truncateLine_iff {line : String} : (∃ shown, truncateLine line = .ok shown) ↔
    (maxLineLen < size line.toList → Boundary line.toList maxLineLen) := by
  rw [truncateLine]
  split_ifs with hlong
  · simp only [slice_zero_eq_ok, hlong, true_imp_iff]
    rfl
  · exact iff_of_true ⟨_, rfl⟩ fun h => absurd h hlong

theorem stepText_ok_iff {step : StepOutput} : (∃ text, stepText step = .ok text) ↔
    ∀ line ∈ step.outputLines.take maxLines,
      maxLineLen < size line.toList → Boundary line.toList maxLineLen := by
  simp only [← exists_truncateLine_iff, ← exists_mapM_iff]
  constructor
  · rintro ⟨text, h⟩
    obtain ⟨lines, hlines, -⟩ := exists_of_bind_eq_ok h
    exact ⟨lines, hlines⟩
  · rintro ⟨lines, hlines⟩
    exact ⟨_, bind_eq_ok_iff.mpr ⟨lines, hlines, rfl⟩⟩

theorem outputText_ok_iff {result : ExecutionResult} :
    (∃ text, outputText result = .ok text) ↔ Cuttable result := by
  have hsteps : Cuttable result ↔ ∀ step ∈ result.stepOutputs, ∃ text, stepText step = .ok text :=
    forall_congr' fun step => imp_congr_right fun _ => stepText_ok_iff.symm
  rw [hsteps, ← exists_mapM_iff]
  constructor
  · rintro ⟨text, h⟩
    obtain ⟨parts, hparts, -⟩ := exists_of_bind_eq_ok h
    exact ⟨parts, hparts⟩
  · rintro ⟨parts, hparts⟩
    exact ⟨_, bind_eq_ok_iff.mpr ⟨parts, hparts, rfl⟩⟩

/-! ### What is built -/

theorem showsStep_of_stepText {step : StepOutput} {text : List Char}
    (h : stepText step = .ok text) : ShowsStep step text := by
  obtain ⟨lines, hlines, h⟩ := exists_of_bind_eq_ok h
  obtain rfl := Except.ok.inj h
  have hall := mapM_eq_ok_iff.mp hlines
  have hlength := hall.length_eq
  rw [List.length_take] at hlength
  have htake : step.outputLines.take lines.length = step.outputLines.take maxLines := by
    rw [← hlength, ← List.take_eq_take_min]
  refine ⟨lines, step.outputLines.length - lines.length, by omega, by omega, ?_, ?_⟩
  · rw [htake]
    exact hall.imp fun _ _ => front_of_truncateLine
  · by_cases hlong : maxLines < step.outputLines.length
    · have hfull : lines.length = maxLines := by omega
      rw [if_pos hlong, hfull, if_neg (by omega)]
    · have hnone : step.outputLines.length - lines.length = 0 := by omega
      rw [if_neg hlong, if_pos hnone]

/-- What is built shows every step. -/
theorem shows_of_outputText {result : ExecutionResult} {text : List Char}
    (h : outputText result = .ok text) : Shows result text := by
  obtain ⟨parts, hparts, h⟩ := exists_of_bind_eq_ok h
  obtain rfl := Except.ok.inj h
  exact ⟨parts, (mapM_eq_ok_iff.mp hparts).imp fun _ _ => showsStep_of_stepText, rfl⟩

/-- A review that comes back has built its text. -/
theorem exists_outputText_of_reviewed {σ : Type} {lib : Library} {p : Planner σ}
    {result : ExecutionResult} {intent : String} {host : Host σ}
    (h : Reviewed lib p result intent host) : ∃ text, outputText result = .ok text := by
  obtain ⟨text, -, hreview⟩ := h
  have hreturns : ∃ r, reviewExecution lib p result intent host = .ok r := by
    rw [hreview]
    generalize summarize lib p (summaryIntent intent text) host = answer
    rcases answer with ⟨e | summary, after⟩
    · exact ⟨_, rfl⟩
    · exact ⟨_, rfl⟩
  obtain ⟨r, hr⟩ := hreturns
  obtain ⟨built, hbuilt, -⟩ := exists_of_bind_eq_ok hr
  exact ⟨built, hbuilt⟩

/-- **When an execution is reviewed.** The text is built, and shows of each step in order at most 50
lines, at most 500 bytes of each from its front on, and how many are left out, if and only if no
long line among them has a character across the offset it is cut at. -/
theorem reviewed_iff {σ : Type} (lib : Library) (p : Planner σ) (result : ExecutionResult)
    (intent : String) (host : Host σ) :
    Reviewed lib p result intent host ↔ Cuttable result := by
  rw [← outputText_ok_iff]
  refine ⟨exists_outputText_of_reviewed, ?_⟩
  rintro ⟨text, htext⟩
  refine ⟨text, shows_of_outputText htext, ?_⟩
  rw [reviewExecution, htext, ok_bind]
  generalize summarize lib p (summaryIntent intent text) host = answer
  rcases answer with ⟨e | summary, after⟩
  · rfl
  · rfl

/-- One step with one line: 499 letters and a letter of two bytes, 501 bytes in all. -/
def longLine : ExecutionResult :=
  ⟨"Completed", [⟨"ListServices", "succeeded",
    [String.ofList (List.replicate 499 'a' ++ ['é'])]⟩]⟩

/-- The 500th byte is the first of the last letter. -/
theorem not_reviewed : ¬ ∀ (σ : Type) (lib : Library) (p : Planner σ) (result : ExecutionResult)
    (intent : String) (host : Host σ), Reviewed lib p result intent host := by
  intro h
  have hreviewed := h Unit plainLibrary (callingPlanner "") longLine "" ⟨(), none, none⟩
  have hcuttable := outputText_ok_iff.mp (exists_outputText_of_reviewed hreviewed)
  have hletters : size (List.replicate 499 'a') = 499 := by
    rw [size, List.map_replicate, List.sum_replicate_nat]
    rfl
  have hlong : maxLineLen < size (List.replicate 499 'a' ++ ['é']) := by
    rw [size_append, hletters]
    decide
  have hboundary := hcuttable _ List.mem_cons_self _ List.mem_cons_self
  rw [String.toList_ofList] at hboundary
  obtain ⟨a, b, hsplit, hsize⟩ := hboundary hlong
  have hcut := cut_eq_some.mpr ⟨hsplit, hsize⟩
  have hinside := @cut_inside (List.replicate 499 'a') 'é' [] 1 (by decide) (by decide)
  rw [hletters] at hinside
  cases hinside.symm.trans hcut

end Sysknife.Shell
