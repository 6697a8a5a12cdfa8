import Sysknife.Cli.OperatorText
import Sysknife.Cli.Plan

/-!
# What the operator sees before a question

The two views an operator consents to: the header of a step in a run (`step_header_text` in
`render.rs`), printed before the question about the step, and the view of `sysknife approve`
(`approval_view` in `runner.rs`). A block that does not fit is counted, and the counts decide
whether there is a question at all. A text on one line is cut as well, and that is not counted.

* `shows_stepHeaderText`, `shows_approvalView`: a view that is asked about shows every character of
  the preview that `operator_safe` leaves, if the texts on one line were not cut.
* `consentViews_of_short`: **in every run, a question follows a view that shows the preview, or the
  command refuses, if no summary and no warning has more than 512 characters.**
-/

namespace Sysknife

namespace Value

/-! ### The change, as it is printed -/

/-- Two spaces for each level. -/
def margin (depth : ℕ) : String := String.ofList (List.replicate (2 * depth) ' ')

mutual

/-- `serde_json::to_string_pretty`, at a depth. -/
def pretty (depth : ℕ) : Value → String
  | .null => "null"
  | .bool b => if b then "true" else "false"
  | .int n => toString n
  | .float text => text
  | .str s => quote s
  | .arr [] => "[]"
  | .arr (v :: vs) => "[\n" ++ String.intercalate ",\n" (prettyItems (depth + 1) (v :: vs)) ++
      "\n" ++ margin depth ++ "]"
  | .obj [] => "\x7b\x7d"
  | .obj (m :: ms) =>
    let pairs := (prettyMembers (depth + 1) (m :: ms)).mergeSort fun a b => decide (a.1 ≤ b.1)
    "\x7b\n" ++ String.intercalate ",\n"
        (pairs.map fun p => margin (depth + 1) ++ quote p.1 ++ ": " ++ p.2) ++
      "\n" ++ margin depth ++ "\x7d"

/-- The items of an array, a line each. -/
def prettyItems (depth : ℕ) : List Value → List String
  | [] => []
  | v :: vs => (margin depth ++ pretty depth v) :: prettyItems depth vs

/-- The members of an object, each value rendered. -/
def prettyMembers (depth : ℕ) : List (String × Value) → List (String × String)
  | [] => []
  | (k, v) :: ms => (k, pretty depth v) :: prettyMembers depth ms

end

/-- Nothing to show: `null`, `{}` or `[]`. -/
def isEmpty : Value → Bool
  | .null => true
  | .obj members => members.isEmpty
  | .arr items => items.isEmpty
  | _ => false

end Value

namespace Cli

open OperatorText Text Store

/-! ### The header of a step -/

def Omissions.record (omitted : Omissions) (block : OperatorBlock) : Omissions where
  withheldLines := omitted.withheldLines + block.withheldLines
  shortenedLines := omitted.shortenedLines + block.shortenedLines

/-- `json_block` -/
def jsonBlock (value : Value) : Option OperatorBlock :=
  if value.isEmpty then none else some (operatorSafeBlock (value.pretty 0))

/-- Every line with a margin in front of it. -/
def indentLines (text margin : String) : String :=
  String.intercalate "\n" ((lines text).map fun line => margin ++ line)

/-- A text in which no line is broken. -/
def replaceBreaks (s : String) : String :=
  String.ofList (s.toList.map fun c => if c == '\n' || c == '\r' then ' ' else c)

def effectsBlock (effects : List String) : Option OperatorBlock :=
  if effects.isEmpty then none
  else
    some (operatorSafeBlock (String.intercalate "\n"
      (effects.map fun e => "- " ++ replaceBreaks e)))

/-- What a terminal that supports color is told around a text, or nothing. -/
structure Paint where
  opening : String
  closing : String

def Paint.apply (paint : Paint) (text : String) : String := paint.opening ++ text ++ paint.closing

structure Palette where
  cyan : Paint
  bold : Paint
  dimmed : Paint
  yellow : Paint

section Header

variable (palette : Palette)

/-- A block under its title. -/
def titled (title : String) : Option OperatorBlock → List String
  | some block => [title, indentLines block.text "      "]
  | none => []

/-- What the blocks left out. -/
def omissions (blocks : List (Option OperatorBlock)) : Omissions :=
  blocks.foldl (fun omitted block => block.elim omitted omitted.record) {}

def headerLines (action : String) (preview : PreviewEnvelope) : List String :=
  [("\n  " ++ palette.cyan.apply "▶" ++ " " ++ palette.bold.apply action ++ "  " ++
    palette.dimmed.apply (operatorSafe preview.summary))] ++
  ((if preview.rebootRequired then
    ["    " ++ palette.yellow.apply "⚠" ++ " reboot required after this step"] else []) ++
  (preview.warnings.map (fun w => "    " ++ palette.yellow.apply "!" ++ " " ++ operatorSafe w) ++
  (titled "    proposed change:" (jsonBlock preview.proposedChange) ++
  titled "    side effects:" (effectsBlock preview.expectedSideEffects))))

/-- The header as printed, and what its blocks left out. -/
def stepHeaderText (action : String) (preview : PreviewEnvelope) : String × Omissions :=
  (String.intercalate "\n" (headerLines palette action preview),
    omissions [jsonBlock preview.proposedChange, effectsBlock preview.expectedSideEffects])

end Header

/-! ### What a header shows -/

/-- The texts of a preview, one after the other. -/
def previewText (preview : PreviewEnvelope) : List Char :=
  preview.summary.toList ++ (preview.warnings.flatMap String.toList ++
    ((if preview.proposedChange.isEmpty then [] else (preview.proposedChange.pretty 0).toList) ++
      preview.expectedSideEffects.flatMap String.toList))

/-- Every character that `operator_safe` leaves is there, in order. -/
def Shows (source : List Char) (text : String) : Prop :=
  (source.filter stays).Sublist text.toList

/-- A text on one line that is not cut. -/
def Short (s : String) : Prop := (operatorSafeChars s).length ≤ maxRenderedLen

/-- The texts of a preview that a header puts on one line. -/
structure ShortPreview (preview : PreviewEnvelope) : Prop where
  summary : Short preview.summary
  warnings : ∀ w ∈ preview.warnings, Short w

section Shown

variable {s : String} {source : List Char} {text : String}

theorem shows_operatorSafe (h : Short s) : Shows s.toList (operatorSafe s) := by
  rw [operatorSafe, if_neg (not_lt.mpr h), Shows, ← filter_operatorSafeChars fun _ h => h]
  exact List.filter_sublist

theorem Shows.append_left (h : Shows source text) (front : String) :
    Shows source (front ++ text) := by
  rw [Shows, String.toList_append]
  exact List.Sublist.trans h (List.sublist_append_right _ _)

theorem Shows.append_right (h : Shows source text) (back : String) :
    Shows source (text ++ back) := by
  rw [Shows, String.toList_append]
  exact List.Sublist.trans h (List.sublist_append_left _ _)

/-- What shows a text shows what it was rendered from. -/
theorem Shows.trans {t : String} (h : Shows source t) (ht : Shows t.toList text) :
    Shows source text := by
  have hagain := List.Sublist.filter stays h
  rw [List.filter_filter] at hagain
  simp only [Bool.and_self] at hagain
  exact hagain.trans ht

theorem Shows.append {source' : List Char} {text' : String} (h : Shows source text)
    (h' : Shows source' text') : Shows (source ++ source') (text ++ text') := by
  rw [Shows, List.filter_append, String.toList_append]
  exact List.Sublist.append h h'

theorem shows_indentLines (text margin : String) : Shows text.toList (indentLines text margin) := by
  refine sublist_rendered (fun _ h => h) fun line _ => ?_
  rw [String.toList_append]
  exact List.filter_sublist.trans (List.sublist_append_right _ _)

/-- Lines that show their parts show the parts in order. -/
def ShowsLines (source : List Char) (ls : List String) : Prop :=
  (source.filter stays).Sublist (ls.flatMap String.toList)

theorem ShowsLines.append {source' : List Char} {ls ls' : List String} (h : ShowsLines source ls)
    (h' : ShowsLines source' ls') : ShowsLines (source ++ source') (ls ++ ls') := by
  rw [ShowsLines, List.filter_append, List.flatMap_append]
  exact List.Sublist.append h h'

theorem ShowsLines.nil (ls : List String) : ShowsLines [] ls := List.nil_sublist _

theorem Shows.lines (h : Shows source text) : ShowsLines source [text] := by
  rw [ShowsLines, List.flatMap_singleton]
  exact h

theorem showsLines_map {xs : List String} {f : String → String}
    (h : ∀ x ∈ xs, Shows x.toList (f x)) :
    ShowsLines (xs.flatMap String.toList) (xs.map f) := by
  induction xs with
  | nil => exact .nil _
  | cons x xs ih =>
    obtain ⟨hx, hxs⟩ := List.forall_mem_cons.mp h
    exact hx.lines.append (ih hxs)

theorem ShowsLines.joined {ls : List String} (h : ShowsLines source ls) :
    Shows source (String.intercalate "\n" ls) := by
  have hlines : (ls.flatMap String.toList).Sublist (String.intercalate "\n" ls).toList := by
    rw [String.toList_intercalate]
    exact sublist_intercalate fun _ _ => List.Sublist.refl _
  exact List.Sublist.trans h hlines

/-- A complete block shows its text under its title. -/
theorem showsLines_titled {title : String} {block : Option OperatorBlock}
    (h : ∀ b ∈ block, Shows source b.text) (hnone : block = none → source = []) :
    ShowsLines source (titled title block) := by
  cases block with
  | none =>
    rw [hnone rfl]
    exact .nil _
  | some b =>
    have hindented := (h b rfl).trans (shows_indentLines b.text "      ")
    exact (ShowsLines.nil [title]).append hindented.lines

theorem isNone_record {omitted : Omissions} {b : OperatorBlock} :
    (omitted.record b).isNone = true ↔ omitted.isNone = true ∧ b.isComplete = true := by
  simp only [Omissions.record, Omissions.isNone, OperatorBlock.isComplete, Bool.and_eq_true,
    beq_iff_eq]
  omega

/-- Nothing is left out where no block leaves anything out. -/
theorem isNone_omissions {blocks : List (Option OperatorBlock)} :
    (omissions blocks).isNone = true ↔ ∀ block ∈ blocks, ∀ b ∈ block, b.isComplete = true := by
  have hall (omitted : Omissions) :
      (blocks.foldl (fun o block => block.elim o o.record) omitted).isNone = true ↔
        omitted.isNone = true ∧ ∀ block ∈ blocks, ∀ b ∈ block, b.isComplete = true := by
    induction blocks generalizing omitted with
    | nil => exact (and_iff_left nofun).symm
    | cons block blocks ih =>
      rw [List.foldl_cons, ih, List.forall_mem_cons, ← and_assoc]
      refine and_congr_left fun _ => ?_
      cases block with
      | none => exact (and_iff_left nofun).symm
      | some b =>
        rw [Option.elim_some, isNone_record]
        exact and_congr_right fun _ => ⟨fun h _ hb => Option.some.inj hb ▸ h, fun h => h b rfl⟩
  exact (hall {}).trans (and_iff_right rfl)

/-- What `operator_safe` leaves of a complete block is shown. -/
theorem shows_block {s : String} (h : (operatorSafeBlock s).isComplete = true) :
    Shows s.toList (operatorSafeBlock s).text :=
  rendered_stays (fun _ h => h) s _ List.mem_cons_self h

/-- The breaks that are replaced would not have stayed. -/
theorem filter_replaceBreaks (e : String) :
    (replaceBreaks e).toList.filter stays = e.toList.filter stays := by
  rw [replaceBreaks, String.toList_ofList]
  induction e.toList with
  | nil => rfl
  | cons c l ih =>
    rw [List.map_cons]
    split_ifs with hbreak
    · have hc : stays c = false := by
        rcases Bool.or_eq_true_iff.mp hbreak with h | h
        all_goals
          obtain rfl := beq_iff_eq.mp h
          decide
      have hspace : stays ' ' = false := by decide
      rw [List.filter_cons_of_neg (by simp [hspace]), List.filter_cons_of_neg (by simp [hc]), ih]
    · rw [List.filter_cons, List.filter_cons, ih]

theorem shows_effects (effects : List String) : Shows (effects.flatMap String.toList)
    (String.intercalate "\n" (effects.map fun e => "- " ++ replaceBreaks e)) := by
  refine (showsLines_map fun e _ => Shows.append_left ?_ "- ").joined
  rw [Shows, ← filter_replaceBreaks]
  exact List.filter_sublist

end Shown

/-- **The header of a step that left nothing out shows the preview**, but for what was cut on one
line. -/
theorem shows_stepHeaderText {palette : Palette} {action : String} {preview : PreviewEnvelope}
    (hshort : ShortPreview preview)
    (hcomplete : (stepHeaderText palette action preview).2.isNone = true) :
    Shows (previewText preview) (stepHeaderText palette action preview).1 := by
  have hblocks := isNone_omissions.mp hcomplete
  have hsummary : Shows preview.summary.toList ("\n  " ++ palette.cyan.apply "▶" ++ " " ++
      palette.bold.apply action ++ "  " ++ palette.dimmed.apply (operatorSafe preview.summary)) :=
    (((shows_operatorSafe hshort.summary).append_left _).append_right _).append_left _
  have hwarnings := showsLines_map fun w hw =>
    (shows_operatorSafe (hshort.warnings w hw)).append_left
      ("    " ++ palette.yellow.apply "!" ++ " ")
  have hchange : ShowsLines (if preview.proposedChange.isEmpty then []
      else (preview.proposedChange.pretty 0).toList)
      (titled "    proposed change:" (jsonBlock preview.proposedChange)) := by
    have hblock := hblocks _ List.mem_cons_self
    rw [jsonBlock] at hblock ⊢
    split_ifs at hblock ⊢ with hempty
    · exact showsLines_titled nofun fun _ => rfl
    · exact showsLines_titled (fun b hb => Option.some.inj hb ▸ shows_block (hblock _ rfl)) nofun
  have heffects : ShowsLines (preview.expectedSideEffects.flatMap String.toList)
      (titled "    side effects:" (effectsBlock preview.expectedSideEffects)) := by
    have hblock := hblocks _ (List.mem_cons_of_mem _ List.mem_cons_self)
    rw [effectsBlock] at hblock ⊢
    split_ifs at hblock ⊢ with hempty
    · refine showsLines_titled nofun fun _ => ?_
      rw [List.isEmpty_iff.mp hempty]
      rfl
    · refine showsLines_titled (fun b hb => ?_) nofun
      obtain rfl := Option.some.inj hb
      exact (shows_effects _).trans (shows_block (hblock _ rfl))
  exact (hsummary.lines.append ((ShowsLines.nil _).append
    (hwarnings.append (hchange.append heffects)))).joined

/-! ### A question of a run -/

/-- A step that the operator is asked about behind its preview. -/
def Due (opts : RunOpts) (step : PlanStep) : Prop :=
  postPreviewConfirmationRequired opts.stepByStep step.riskLevel = true ∧
    opts.approvalPolicy.decideStep step.riskLevel = .requiresPrompt

section Views

variable (plan : AuthorizedPlan) (opts : RunOpts)

/-- The last call did not print the header of a step that is due. -/
def Settled (history : List RunEvent) : Prop :=
  ∀ before i action preview view step,
    history = before ++ [⟨.printStepHeader i action preview, view⟩] →
      plan.steps[i]? = some step → ¬ Due opts step

/-- Which call may follow a header: the question about a step that is due, if nothing is left
out. -/
def ViewGate (history : List RunEvent) : RunCall → Prop
  | .confirm (.applyStep i step) => plan.steps[i]? = some step ∧
    ∃ before prepared view, view.isNone = true ∧ history = before ++
      [⟨.previewDeclaring i step.actionName step.params opts.skipApproval, .ok prepared⟩,
        ⟨.printStepHeader i step.actionName prepared.preview, view⟩]
  | _ => Settled plan opts history

/-- A run that ends with the header of a step that is due was refused. -/
def Ended (history : List RunEvent) (result : Except CliError Unit) : Prop :=
  ∀ before i action preview view step,
    history = before ++ [⟨.printStepHeader i action preview, view⟩] →
      plan.steps[i]? = some step → Due opts step → ∃ note, result = .error
        (.runViewIncomplete ("the " ++ step.actionName ++ " preview") view.withheldLines note)

/-- The automaton that remembers the whole run. -/
@[reducible] def viewMonitor : Monitor RunCall RunCall.Answer :=
  .remembering (ViewGate plan opts)

/-- Neither a header nor a question about a step. -/
def Quiet : RunCall → Prop
  | .printStepHeader _ _ _ => False
  | .confirm (.applyStep _ _) => False
  | _ => True

variable {plan opts} {history : List RunEvent} {i : ℕ} {step : PlanStep}
  {prepared : PreparedPreview}

theorem Settled.ended (h : Settled plan opts history) (result : Except CliError Unit) :
    Ended plan opts history result :=
  fun before i action preview view step heq hstep hdue =>
    absurd hdue (h before i action preview view step heq hstep)

/-- Behind a call that is no header nothing is due. -/
theorem settled_concat {c : RunCall} {answer : c.Answer}
    (h : ∀ i action preview, c ≠ .printStepHeader i action preview) :
    Settled plan opts (history ++ [⟨c, answer⟩]) := by
  intro before i action preview view step heq
  have hlast := (List.append_inj' heq rfl).2
  obtain ⟨hcall, -⟩ := Sigma.mk.inj (List.singleton_inj.mp hlast)
  exact absurd hcall (h i action preview)

theorem quiet_step {c : RunCall} (hsettled : Settled plan opts history) (hc : Quiet c) :
    ViewGate plan opts history c ∧ ∀ answer, Settled plan opts (history ++ [⟨c, answer⟩]) := by
  refine ⟨?_, fun answer => settled_concat ?_⟩
  · cases c with
    | confirm question =>
      cases question with
      | applyStep i step => exact absurd hc id
      | _ => exact hsettled
    | printStepHeader i action preview => exact absurd hc id
    | _ => exact hsettled
  · rintro i action preview rfl
    exact hc

/-- A part of the run that prints no header and asks about no step. -/
theorem obeys_quiet {p : PlanRunner} (hp : p.Only Quiet) (hsettled : Settled plan opts history) :
    (viewMonitor plan opts).Obeys (fun history _ => Settled plan opts history) p history :=
  hp.obeys (fun _ _ hg hop => quiet_step hg hop) hsettled

theorem obeys_quiet_andThen {p next : PlanRunner} (hp : p.Only Quiet)
    (hsettled : Settled plan opts history)
    (hnext : ∀ history, Settled plan opts history →
      (viewMonitor plan opts).Obeys (Ended plan opts) next history) :
    (viewMonitor plan opts).Obeys (Ended plan opts) (p.andThen next) history := by
  refine obeys_sequence ((obeys_quiet hp hsettled).mono fun history r h => ?_)
  refine ⟨fun _ _ => ?_, fun _ => ?_⟩
  · exact h.ended r
  · exact hnext history h

theorem only_planGate (view : Omissions) : (planGate plan opts view).Only Quiet := by
  unfold planGate
  cases gateAction (opts.approvalPolicy.decidePlan plan.steps) plan.highestRisk with
  | proceed => trivial
  | refuse error => trivial
  | askOperator =>
    dsimp only
    split_ifs
    · trivial
    · unfold confirmView
      cases requireCompleteView view "the plan" with
      | error e => trivial
      | ok _ =>
        refine Prog.only_perform_bind trivial fun answer => ?_
        cases answer <;> trivial

theorem only_applyChanges (changes : List PendingPrefChange) :
    (applyChanges changes).Only Quiet := by
  induction changes with
  | nil => trivial
  | cons change rest ih => exact Prog.only_perform_bind trivial fun _ => ih

theorem only_preferenceChanges (view : Omissions) :
    (preferenceChanges plan opts view).Only Quiet := by
  unfold preferenceChanges
  split_ifs
  · trivial
  · trivial
  · cases requireCompleteView view "the plan" with
    | error e => trivial
    | ok _ =>
      refine Prog.only_perform_bind trivial fun answer => ?_
      cases answer with
      | false => trivial
      | true => exact only_applyChanges plan.prefChanges

theorem only_executeStepChecked (i : ℕ) (step : PlanStep) (transactionId : String) :
    (executeStepChecked i step transactionId).Only Quiet := by
  refine Prog.only_perform_bind trivial fun answer => ?_
  match answer with
  | .error e => trivial
  | .ok receipt =>
    refine Prog.only_perform_bind trivial fun answer => ?_
    match answer with
    | .error e => trivial
    | .ok result => trivial

/-- The header that a history ends with is that of the step. -/
theorem header_of_concat {view view' : Omissions} {before before' : List RunEvent} {j : ℕ}
    {action action' : String} {preview preview' : PreviewEnvelope}
    (h : before ++ [⟨.printStepHeader i action preview, view⟩] =
      before' ++ [⟨.printStepHeader j action' preview', view'⟩]) :
    i = j ∧ action = action' ∧ preview = preview' ∧ view = view' := by
  have hlast := (List.append_inj' h rfl).2
  obtain ⟨hcall, hanswer⟩ := Sigma.mk.inj (List.singleton_inj.mp hlast)
  obtain ⟨rfl, rfl, rfl⟩ := RunCall.printStepHeader.inj hcall
  exact ⟨rfl, rfl, rfl, eq_of_heq hanswer⟩

/-- What follows the header of a step. -/
theorem obeys_stepGate_views {view : Omissions} {before : List RunEvent}
    (hstep : plan.steps[i]? = some step) :
    (viewMonitor plan opts).Obeys (fun history r => Ended plan opts history r ∧
        (r = .ok () → Settled plan opts history)) (stepGate opts i step view)
      (before ++ [⟨.previewDeclaring i step.actionName step.params opts.skipApproval,
        .ok prepared⟩] ++ [⟨.printStepHeader i step.actionName prepared.preview, view⟩]) := by
  -- a step that is not due leaves nothing to be asked
  have hfree (h : ¬ Due opts step) : Settled plan opts
      (before ++ [⟨.previewDeclaring i step.actionName step.params opts.skipApproval,
        .ok prepared⟩] ++ [⟨.printStepHeader i step.actionName prepared.preview, view⟩]) := by
    intro before' j action preview view' step' heq hstep'
    obtain ⟨rfl, -⟩ := header_of_concat heq
    rwa [Option.some.inj (hstep'.symm.trans hstep)]
  unfold stepGate
  cases hpost : postPreviewConfirmationRequired opts.stepByStep step.riskLevel with
  | false =>
    have hdue : ¬ Due opts step := fun h => absurd (hpost.symm.trans h.1) Bool.false_ne_true
    exact ⟨(hfree hdue).ended _, fun _ => hfree hdue⟩
  | true =>
    simp only [reduceIte]
    cases hdecision : opts.approvalPolicy.decideStep step.riskLevel with
    | requiresPrompt =>
      simp only [gateAction, confirmView, requireCompleteView]
      cases hview : view.isNone with
      | false =>
        refine ⟨?_, nofun⟩
        intro before' j action preview view' step' heq hstep' hdue
        obtain ⟨rfl, -, -, rfl⟩ := header_of_concat heq
        obtain rfl := Option.some.inj (hstep'.symm.trans hstep)
        exact ⟨_, rfl⟩
      | true =>
        refine Monitor.obeys_perform_bind ⟨hstep, before, prepared, view, hview, ?_⟩
          fun answer => ?_
        · rw [List.append_assoc]
          rfl
        · have hsettled := @settled_concat plan opts (before ++
            [⟨.previewDeclaring i step.actionName step.params opts.skipApproval, .ok prepared⟩] ++
            [⟨.printStepHeader i step.actionName prepared.preview, view⟩])
              (.confirm (.applyStep i step)) answer nofun
          cases answer with
          | true => exact ⟨hsettled.ended _, fun _ => hsettled⟩
          | false => exact ⟨hsettled.ended _, nofun⟩
    | _ =>
      have hdue : ¬ Due opts step := fun h => nomatch hdecision.symm.trans h.2
      exact ⟨(hfree hdue).ended _, fun _ => hfree hdue⟩

/-- A step from its preview on. -/
theorem obeys_executePreviewed_views (hjson : opts.json = false)
    (hstep : plan.steps[i]? = some step) : (viewMonitor plan opts).Obeys
      (fun history r => Ended plan opts history r ∧ (r = .ok () → Settled plan opts history))
      (executePreviewed opts i step prepared)
      (history ++ [⟨.previewDeclaring i step.actionName step.params opts.skipApproval,
        .ok prepared⟩]) := by
  have hpreviewed := @settled_concat plan opts history
    (.previewDeclaring i step.actionName step.params opts.skipApproval) (.ok prepared) nofun
  unfold executePreviewed
  cases checkPreview opts step prepared.preview with
  | error e => exact ⟨hpreviewed.ended _, nofun⟩
  | ok _ =>
    unfold stepView
    rw [if_neg (ne_true_of_eq_false hjson)]
    refine Monitor.obeys_perform_bind hpreviewed fun view => ?_
    refine obeys_sequence ((obeys_stepGate_views hstep).mono fun history r h => ?_)
    refine ⟨fun e he => ⟨h.1, fun hok => absurd (he.symm.trans hok) nofun⟩, fun hok => ?_⟩
    exact (obeys_quiet (only_executeStepChecked i step _) (h.2 hok)).mono
      fun history r hsettled => ⟨hsettled.ended r, fun _ => hsettled⟩

theorem obeys_executeSteps_views (hjson : opts.json = false) (rest : List PlanStep)
    (hrest : plan.steps.drop i = rest) (hsettled : Settled plan opts history) :
    (viewMonitor plan opts).Obeys (Ended plan opts) (executeSteps opts i rest) history := by
  induction rest generalizing i history with
  | nil => exact hsettled.ended _
  | cons step rest ih =>
    have hstep : plan.steps[i]? = some step := by
      rw [← List.head?_drop, hrest, List.head?_cons]
    have hdrop : plan.steps.drop (i + 1) = rest := by
      rw [← List.tail_drop, hrest, List.tail_cons]
    refine Monitor.obeys_perform_bind hsettled fun answer => ?_
    have hpreviewed := @settled_concat plan opts history
      (.previewDeclaring i step.actionName step.params opts.skipApproval) answer nofun
    match answer with
    | .error e => exact hpreviewed.ended _
    | .ok prepared =>
      refine obeys_sequence ((obeys_executePreviewed_views hjson hstep).mono fun history r h => ?_)
      exact ⟨fun _ _ => h.1, fun hok => ih hdrop (h.2 hok)⟩

/-- **Every question about a step follows its header**, and every header of a step that is due is
followed by the question or the refusal. -/
theorem obeys_executePlan_views (plan : AuthorizedPlan) (opts : RunOpts)
    (hjson : opts.json = false) :
    (viewMonitor plan opts).Obeys (Ended plan opts) (executePlan plan opts) [] := by
  have hstart : Settled plan opts [] := fun before _ _ _ _ _ h => by simp at h
  unfold executePlan planView
  rw [if_neg (ne_true_of_eq_false hjson)]
  refine Monitor.obeys_perform_bind hstart fun view => ?_
  have hprinted := @settled_concat plan opts [] (.printPlan plan) view nofun
  split_ifs
  · exact hprinted.ended _
  · refine obeys_quiet_andThen (only_planGate view) hprinted fun history hgate => ?_
    refine obeys_quiet_andThen (only_preferenceChanges view) hgate fun history hchanges => ?_
    exact obeys_executeSteps_views hjson plan.steps rfl hchanges

end Views

/-! ### The view of an approval -/

/-- Why an approval fails. -/
inductive ApproveError
  | cli (error : CliError)
  | approvalNeedsTerminal
  | approvalViewIncomplete (transactionId : String) (withheld : ℕ) (shortenedNote : String)

/-- What is printed above the question, or the refusal of a change that does not fit. -/
def approvalView (context pretty transactionId : String) (full : Bool) :
    Except ApproveError String :=
  if full then
    .ok ("Proposed change (complete):\n" ++ (operatorSafeBlockFull pretty).text ++ "\n\n" ++
      context)
  else
    let block := operatorSafeBlock pretty
    if !block.isComplete then
      .error (.approvalViewIncomplete transactionId block.withheldLines
        (if block.shortenedLines = 0 then ""
          else ", and " ++ toString block.shortenedLines ++ " shown line(s) were cut short"))
    else .ok (context ++ "\nProposed change:\n" ++ block.text)

/-- What the daemon has on a transaction that waits for an approval. -/
structure ApprovalDetails where
  transactionId : String
  actionName : String
  preview : PreviewEnvelope

/-- A line on standard output; of one in JSON, what it is made of. -/
inductive ApproveLine
  | text (s : String)
  | dryRunJson (details : ApprovalDetails)
  | receiptJson (transactionId receipt : String)

/-- What an approval calls. -/
inductive ApproveCall
  | approvalDetails (transactionId : String)
  | println (line : ApproveLine)
  | printStderr (text : String)
  | confirm (risk : RiskLevel) (actionName transactionId : String)
  | approve (transactionId : String)

abbrev ApproveCall.Answer : ApproveCall → Type
  | .approvalDetails _ => Except CliError ApprovalDetails
  | .println _ => Unit
  | .printStderr _ => Unit
  | .confirm _ _ _ => Bool
  | .approve _ => Except CliError String

abbrev ApproveRunner := Prog ApproveCall ApproveCall.Answer (Except ApproveError Unit)

/-- Make one call of an approval. -/
abbrev perform (c : ApproveCall) : Prog ApproveCall ApproveCall.Answer c.Answer := Prog.perform c

/-- The debug spelling of a risk. -/
def riskDebug : RiskLevel → String
  | .low => "Low"
  | .medium => "Medium"
  | .high => "High"

/-- Action, risk and summary. -/
def approvalContext (details : ApprovalDetails) : String :=
  "Action:  " ++ details.actionName ++ "\nRisk:    " ++ riskDebug details.preview.riskLevel ++
    "\nSummary: " ++ operatorSafe details.preview.summary

section Approve

variable (transactionId : String) (opts : RunOpts) (full : Bool)

/-- A preview of the approval; no consent is taken on it. -/
def dryRunLine (details : ApprovalDetails) (pretty : String) : ApproveLine :=
  if opts.json then .dryRunJson details
  else
    let block := if full then operatorSafeBlockFull pretty else operatorSafeBlock pretty
    .text ("Dry run: approval preview only.\n" ++ approvalContext details ++
      "\nProposed change:\n" ++ block.text)

def receiptLine (receipt : String) : ApproveLine :=
  if opts.json then .receiptJson transactionId receipt else .text ("Approval receipt: " ++ receipt)

/-- The receipt is printed. -/
def issueReceipt : ApproveRunner := do
  match ← perform (.approve transactionId) with
  | .error e => return .error (.cli e)
  | .ok receipt =>
    perform (.println (receiptLine transactionId opts receipt))
    return .ok ()

/-- The policy of an approval: its hard refusals only. -/
def approvePolicy : ApprovalPolicy where
  yes := false
  maxRisk := opts.maxRisk
  nonInteractive := opts.nonInteractive
  dryRun := false
  skipApproval := false

/-- From the details on. -/
def approveDetails (details : ApprovalDetails) : ApproveRunner :=
  let pretty := details.preview.proposedChange.pretty 0
  if opts.dryRun then do
    perform (.println (dryRunLine opts full details pretty))
    return .ok ()
  else
    let risk := planRiskOf details.preview.riskLevel
    match gateAction ((approvePolicy opts).decideStep risk) risk with
    | .refuse error => return .error (.cli error)
    | _ =>
      match approvalView (approvalContext details) pretty transactionId full with
      | .error e => return .error e
      | .ok text => do
        perform (.printStderr text)
        if ← perform (.confirm details.preview.riskLevel details.actionName
            details.transactionId) then
          issueReceipt transactionId opts
        else return .error (.cli .rejected)

/-- Show a transaction and ask for its approval. -/
def approveWithConfirmation (terminal : Bool) : ApproveRunner :=
  if opts.nonInteractive && !opts.dryRun then return .error (.cli .nonInteractive)
  else if !terminal && !opts.dryRun then return .error .approvalNeedsTerminal
  else do
    match ← perform (.approvalDetails transactionId) with
    | .error e => return .error (.cli e)
    | .ok details => approveDetails transactionId opts full details

end Approve

/-! ### What an approval shows -/

/-- The texts of a preview that an approval is asked about, in the order of the view. -/
def approvalText (full : Bool) (preview : PreviewEnvelope) : List Char :=
  if full then (preview.proposedChange.pretty 0).toList ++ preview.summary.toList
  else preview.summary.toList ++ (preview.proposedChange.pretty 0).toList

/-- A call of an approval with its answer. -/
abbrev ApproveEvent := Call ApproveCall ApproveCall.Answer

section Approval

variable {transactionId : String} {opts : RunOpts} {full terminal : Bool}
  {details : ApprovalDetails}

/-- **The view that is asked about shows the change**, and the summary if it was not cut. -/
theorem shows_approvalView {text : String} (hshort : Short details.preview.summary)
    (h : approvalView (approvalContext details) (details.preview.proposedChange.pretty 0)
      transactionId full = .ok text) : Shows (approvalText full details.preview) text := by
  have hcontext : Shows details.preview.summary.toList (approvalContext details) :=
    (shows_operatorSafe hshort).append_left _
  rw [approvalView] at h
  cases full with
  | true =>
    obtain rfl := Except.ok.inj h
    have hblock := rendered_stays (fun _ h => h) (details.preview.proposedChange.pretty 0) _
      (List.mem_cons_of_mem _ List.mem_cons_self) rfl
    exact ((Shows.append_left hblock _).append_right _).append hcontext
  | false =>
    simp only [Bool.false_eq_true, reduceIte] at h
    split_ifs at h with hcomplete
    obtain rfl := Except.ok.inj h
    have hblock :
        (operatorSafeBlock (details.preview.proposedChange.pretty 0)).isComplete = true := by
      simpa using hcomplete
    exact (hcontext.append_right _).append (shows_block hblock)

/-- The question of an approval follows its view. -/
def ApproveGate (transactionId : String) (full : Bool) (history : List ApproveEvent) :
    ApproveCall → Prop
  | .confirm _ _ _ => ∃ details text, approvalView (approvalContext details)
      (details.preview.proposedChange.pretty 0) transactionId full = .ok text ∧
    history = [⟨.approvalDetails transactionId, .ok details⟩, ⟨.printStderr text, ()⟩]
  | _ => True

/-- The automaton that remembers the whole approval. -/
@[reducible] def approveMonitor (transactionId : String) (full : Bool) :
    Monitor ApproveCall ApproveCall.Answer :=
  .remembering (ApproveGate transactionId full)

theorem obeys_approveDetails :
    (approveMonitor transactionId full).Obeys (fun _ _ => True)
      (approveDetails transactionId opts full details)
      [⟨.approvalDetails transactionId, .ok details⟩] := by
  unfold approveDetails
  split_ifs
  · exact ⟨trivial, fun _ => trivial⟩
  · dsimp only
    split
    · trivial
    · cases hview : approvalView (approvalContext details)
        (details.preview.proposedChange.pretty 0) transactionId full with
      | error e => trivial
      | ok text =>
        refine ⟨trivial, fun _ => ⟨⟨details, text, hview, rfl⟩, fun answer => ?_⟩⟩
        cases answer with
        | false => trivial
        | true =>
          refine ⟨trivial, fun answer => ?_⟩
          match answer with
          | .error e => trivial
          | .ok receipt => exact ⟨trivial, fun _ => trivial⟩

theorem obeys_approveWithConfirmation (transactionId : String) (opts : RunOpts)
    (full terminal : Bool) : (approveMonitor transactionId full).Obeys (fun _ _ => True)
      (approveWithConfirmation transactionId opts full terminal) [] := by
  unfold approveWithConfirmation
  split_ifs
  · trivial
  · trivial
  · refine ⟨trivial, fun answer => ?_⟩
    match answer with
    | .error e => trivial
    | .ok details => exact obeys_approveDetails

/-- Behind the details of a transaction that may be approved stands its view and the question, or
the refusal of the view. -/
theorem decided_approveWithConfirmation {rest : List ApproveEvent}
    {result : Except ApproveError Unit} (hdry : opts.dryRun = false)
    (hgate : ∀ e, gateAction ((approvePolicy opts).decideStep
      (planRiskOf details.preview.riskLevel)) (planRiskOf details.preview.riskLevel) ≠ .refuse e)
    (h : Prog.Completes (approveWithConfirmation transactionId opts full terminal)
      (⟨.approvalDetails transactionId, .ok details⟩ :: rest) result) :
    (∃ text answer more, approvalView (approvalContext details)
        (details.preview.proposedChange.pretty 0) transactionId full = .ok text ∧
      rest = ⟨.printStderr text, ()⟩ :: ⟨.confirm details.preview.riskLevel details.actionName
        details.transactionId, answer⟩ :: more) ∨
    ∃ e, approvalView (approvalContext details) (details.preview.proposedChange.pretty 0)
      transactionId full = .error e ∧ rest = [] ∧ result = .error e := by
  unfold approveWithConfirmation at h
  split_ifs at h
  · cases h.of_pure.1
  · cases h.of_pure.1
  · obtain ⟨answer, calls, hcalls, h⟩ := h.of_call
    obtain ⟨hanswer, rfl⟩ := List.cons.inj hcalls
    obtain rfl := eq_of_heq (Sigma.mk.inj hanswer).2
    have hdetails : Prog.Completes (approveDetails transactionId opts full details) rest result := h
    unfold approveDetails at hdetails
    rw [if_neg (ne_true_of_eq_false hdry)] at hdetails
    dsimp only at hdetails
    split at hdetails
    · exact absurd ‹_› (hgate _)
    · cases hview : approvalView (approvalContext details)
        (details.preview.proposedChange.pretty 0) transactionId full with
      | error e =>
        rw [hview] at hdetails
        obtain ⟨hnone, hresult⟩ := hdetails.of_pure
        exact .inr ⟨e, rfl, hnone, hresult⟩
      | ok text =>
        rw [hview] at hdetails
        obtain ⟨_, rest', rfl, hasked⟩ := hdetails.of_call
        obtain ⟨answer, more, rfl, -⟩ := hasked.of_call
        exact .inl ⟨text, answer, more, rfl, rfl⟩

/-- A view is refused only because the change does not fit. -/
theorem approvalView_eq_error {context pretty : String} {e : ApproveError}
    (h : approvalView context pretty transactionId full = .error e) :
    ∃ withheld note, e = .approvalViewIncomplete transactionId withheld note := by
  rw [approvalView] at h
  cases full with
  | true => cases h
  | false =>
    simp only [Bool.false_eq_true, reduceIte] at h
    split_ifs at h
    all_goals exact ⟨_, _, (Except.error.inj h).symm⟩

end Approval

/-! ### Every consent -/

/-- The headers of a run are those of the renderer. -/
def Rendered (palette : Palette) (calls : List RunEvent) : Prop :=
  ∀ i action preview view, ⟨.printStepHeader i action preview, view⟩ ∈ calls →
    view = (stepHeaderText palette action preview).2

/-- Every preview a run was given is of a kind. -/
def PreviewedAs (P : PreviewEnvelope → Prop) (calls : List RunEvent) : Prop :=
  ∀ i action params unattended prepared,
    ⟨.previewDeclaring i action params unattended, .ok prepared⟩ ∈ calls → P prepared.preview

/-- What the operator has seen when a question is asked, and what becomes of a step or an approval
whose question is due. The previews of a run are of one kind, those of an approval of another. -/
structure ConsentViews (palette : Palette) (P Q : PreviewEnvelope → Prop) : Prop where
  asked (plan : AuthorizedPlan) (opts : RunOpts) (calls : List RunEvent) (hjson : opts.json = false)
    (htraces : Prog.Traces (executePlan plan opts) calls) (hrendered : Rendered palette calls)
    (hpreviewed : PreviewedAs P calls) {pre suf : List RunEvent} {i : ℕ} {step : PlanStep}
    {answer : Bool} (hsplit : calls = pre ++ ⟨.confirm (.applyStep i step), answer⟩ :: suf) :
    ∃ before prepared view, pre = before ++
      [⟨.previewDeclaring i step.actionName step.params opts.skipApproval, .ok prepared⟩,
        ⟨.printStepHeader i step.actionName prepared.preview, view⟩] ∧
      Shows (previewText prepared.preview)
        (stepHeaderText palette step.actionName prepared.preview).1
  decided (plan : AuthorizedPlan) (opts : RunOpts) (calls : List RunEvent)
    (result : Except CliError Unit) (hjson : opts.json = false)
    (hcompletes : Prog.Completes (executePlan plan opts) calls result)
    (hrendered : Rendered palette calls) (hpreviewed : PreviewedAs P calls)
    {pre suf : List RunEvent} {i : ℕ} {action : String} {preview : PreviewEnvelope}
    {view : Omissions} {step : PlanStep}
    (hsplit : calls = pre ++ ⟨.printStepHeader i action preview, view⟩ :: suf)
    (hstep : plan.steps[i]? = some step) (hdue : Due opts step) :
    (∃ answer rest, suf = ⟨.confirm (.applyStep i step), answer⟩ :: rest ∧
        Shows (previewText preview) (stepHeaderText palette action preview).1) ∨
      suf = [] ∧ ∃ note, result = .error
        (.runViewIncomplete ("the " ++ step.actionName ++ " preview") view.withheldLines note)
  approvalAsked (transactionId : String) (opts : RunOpts) (full terminal : Bool)
    (calls : List ApproveEvent)
    (htraces : Prog.Traces (approveWithConfirmation transactionId opts full terminal) calls)
    {pre suf : List ApproveEvent} {risk : RiskLevel} {action t : String} {answer : Bool}
    (hsplit : calls = pre ++ ⟨.confirm risk action t, answer⟩ :: suf) :
    ∃ details text,
      pre = [⟨.approvalDetails transactionId, .ok details⟩, ⟨.printStderr text, ()⟩] ∧
      (Q details.preview → Shows (approvalText full details.preview) text)
  approvalDecided (transactionId : String) (opts : RunOpts) (full terminal : Bool)
    (rest : List ApproveEvent) (details : ApprovalDetails) (result : Except ApproveError Unit)
    (hcompletes : Prog.Completes (approveWithConfirmation transactionId opts full terminal)
      (⟨.approvalDetails transactionId, .ok details⟩ :: rest) result)
    (hdry : opts.dryRun = false)
    (hgate : ∀ e, gateAction ((approvePolicy opts).decideStep
      (planRiskOf details.preview.riskLevel)) (planRiskOf details.preview.riskLevel) ≠ .refuse e) :
    (∃ text answer more, rest = ⟨.printStderr text, ()⟩ :: ⟨.confirm details.preview.riskLevel
        details.actionName details.transactionId, answer⟩ :: more ∧
      (Q details.preview → Shows (approvalText full details.preview) text)) ∨
    rest = [] ∧ ∃ withheld note,
      result = .error (.approvalViewIncomplete transactionId withheld note)

/-- A question about a step follows its header, which shows the preview if it is short. -/
theorem asked_executePlan {palette : Palette} {plan : AuthorizedPlan} {opts : RunOpts}
    {calls pre suf : List RunEvent} {i : ℕ} {step : PlanStep} {answer : Bool}
    (hjson : opts.json = false) (htraces : Prog.Traces (executePlan plan opts) calls)
    (hrendered : Rendered palette calls) (hpreviewed : PreviewedAs ShortPreview calls)
    (hsplit : calls = pre ++ ⟨.confirm (.applyStep i step), answer⟩ :: suf) :
    plan.steps[i]? = some step ∧ ∃ before prepared view, pre = before ++
      [⟨.previewDeclaring i step.actionName step.params opts.skipApproval, .ok prepared⟩,
        ⟨.printStepHeader i step.actionName prepared.preview, view⟩] ∧
      Shows (previewText prepared.preview)
        (stepHeaderText palette step.actionName prepared.preview).1 := by
  have hgate := htraces.allowed (obeys_executePlan_views plan opts hjson) hsplit
  rw [Monitor.after_remembering, List.nil_append] at hgate
  obtain ⟨hstep, before, prepared, view, hcomplete, rfl⟩ := hgate
  have hmem (e : RunEvent) (he : e ∈ [⟨.previewDeclaring i step.actionName step.params
      opts.skipApproval, .ok prepared⟩, ⟨.printStepHeader i step.actionName prepared.preview,
        view⟩]) : e ∈ calls := by
    rw [hsplit]
    exact List.mem_append_left _ (List.mem_append_right _ he)
  refine ⟨hstep, before, prepared, view, rfl, shows_stepHeaderText ?_ ?_⟩
  · exact hpreviewed _ _ _ _ _ (hmem _ List.mem_cons_self)
  · rw [← hrendered _ _ _ _ (hmem _ (List.mem_cons_of_mem _ List.mem_cons_self))]
    exact hcomplete

/-- **When consent rests on what was shown.** In every run and every approval, a question follows a
view that shows the preview, and where the question is due and the view is not complete, the command
refuses: if no summary and no warning that is put on one line is cut. -/
theorem consentViews_of_short (palette : Palette) :
    ConsentViews palette ShortPreview fun preview => Short preview.summary where
  asked plan opts calls hjson htraces hrendered hpreviewed pre suf i step answer hsplit :=
    (asked_executePlan hjson htraces hrendered hpreviewed hsplit).2
  decided plan opts calls result hjson hcompletes hrendered hpreviewed pre suf i action preview view
      step hsplit hstep hdue := by
    cases suf with
    | nil =>
      have hended := hcompletes.post (obeys_executePlan_views plan opts hjson)
      rw [Monitor.after_remembering, List.nil_append] at hended
      exact .inr ⟨rfl, hended pre i action preview view step hsplit hstep hdue⟩
    | cons e rest =>
      have hnext : calls = pre ++ [⟨.printStepHeader i action preview, view⟩] ++ e :: rest := by
        rw [hsplit, List.append_assoc]
        rfl
      have hgate := hcompletes.traces.allowed (obeys_executePlan_views plan opts hjson) hnext
      rw [Monitor.after_remembering, List.nil_append] at hgate
      -- behind the header of a step that is due nothing else is allowed
      have hsettled (h : Settled plan opts
          (pre ++ [⟨.printStepHeader i action preview, view⟩])) : False :=
        h pre i action preview view step rfl hstep hdue
      obtain ⟨c, answer⟩ := e
      cases c with
      | confirm question =>
        cases question with
        | applyStep j step' =>
          obtain ⟨hstep', before, prepared, view', hpre, hshows⟩ :=
            asked_executePlan hjson hcompletes.traces hrendered hpreviewed hnext
          have hheaders : pre ++ [⟨.printStepHeader i action preview, view⟩] =
              (before ++ [⟨.previewDeclaring j step'.actionName step'.params opts.skipApproval,
                .ok prepared⟩]) ++
                [⟨.printStepHeader j step'.actionName prepared.preview, view'⟩] := by
            rw [hpre, List.append_assoc]
            rfl
          obtain ⟨rfl, rfl, rfl, -⟩ := header_of_concat hheaders
          obtain rfl := Option.some.inj (hstep'.symm.trans hstep)
          exact .inl ⟨answer, rest, rfl, hshows⟩
        | _ => exact (hsettled hgate).elim
      | _ => exact (hsettled hgate).elim
  approvalAsked transactionId opts full terminal calls htraces pre suf risk action t answer
      hsplit := by
    have hobeys := obeys_approveWithConfirmation transactionId opts full terminal
    have hgate := htraces.allowed hobeys hsplit
    rw [Monitor.after_remembering, List.nil_append] at hgate
    obtain ⟨details, text, hview, rfl⟩ := hgate
    exact ⟨details, text, rfl, fun hshort => shows_approvalView hshort hview⟩
  approvalDecided transactionId opts full terminal rest details result hcompletes hdry hgate := by
    rcases decided_approveWithConfirmation hdry hgate hcompletes with
      ⟨text, answer, more, hview, rfl⟩ | ⟨e, hview, rfl, rfl⟩
    · exact .inl ⟨text, answer, more, rfl, fun hshort => shows_approvalView hshort hview⟩
    · obtain ⟨withheld, note, rfl⟩ := approvalView_eq_error hview
      exact .inr ⟨rfl, withheld, note, rfl⟩

/-- A text on one line keeps no more than so many characters. -/
theorem count_operatorSafe_le (s : String) {c : Char} (hc : c ∉ truncationMarker.toList) :
    (operatorSafe s).toList.count c ≤ maxRenderedLen := by
  rw [operatorSafe]
  split_ifs with hlong
  · rw [String.toList_append, List.count_append, List.count_eq_zero.mpr hc, Nat.add_zero,
      String.toList_ofList]
    exact List.count_le_length.trans (List.length_take_le _ _)
  · refine List.count_le_length.trans ?_
    rw [String.length_toList]
    exact not_lt.mp hlong

/-- One step, previewed with a warning of 513 letters. -/
def restartPlan : AuthorizedPlan where
  intent := "restart the web server"
  summary := "Restart nginx"
  steps := [⟨"RestartService", "Restart nginx", .obj [], .medium⟩]
  prefChanges := []
  nonempty := List.cons_ne_nil _ _

/-- A preview that warns. -/
def restartPreview (warning : String) : PreviewEnvelope :=
  ⟨"Restart nginx", .medium, .null, .null, [], false, false, [warning], "hash"⟩

def longWarning : String := String.ofList (List.replicate 513 'z')

def restartPrepared : PreparedPreview := ⟨"tx-1", restartPreview longWarning⟩

/-- A terminal without colors. -/
def plainPalette : Palette := ⟨⟨"", ""⟩, ⟨"", ""⟩, ⟨"", ""⟩, ⟨"", ""⟩⟩

def restartCalls : List RunEvent :=
  [⟨.printPlan restartPlan, {}⟩, ⟨.confirm (.executePlan 1 .medium), true⟩,
    ⟨.previewDeclaring 0 "RestartService" (.obj []) false, .ok restartPrepared⟩,
    ⟨.printStepHeader 0 "RestartService" restartPrepared.preview, {}⟩]

/-- The warning is the last line of the header. -/
theorem stepHeaderText_restart (warning : String) :
    stepHeaderText plainPalette "RestartService" (restartPreview warning) =
      ("\n  ▶ RestartService  Restart nginx\n" ++ ("    ! " ++ operatorSafe warning), {}) := by
  have hsummary : "\n  " ++ plainPalette.cyan.apply "▶" ++ " " ++
      plainPalette.bold.apply "RestartService" ++ "  " ++
      plainPalette.dimmed.apply (operatorSafe "Restart nginx") =
        "\n  ▶ RestartService  Restart nginx" := by decide
  have hsign : "    " ++ plainPalette.yellow.apply "!" ++ " " = "    ! " := by decide
  have hlines : headerLines plainPalette "RestartService" (restartPreview warning) =
      ["\n  ▶ RestartService  Restart nginx", "    ! " ++ operatorSafe warning] := by
    rw [← hsummary, ← hsign]
    rfl
  rw [stepHeaderText, hlines]
  refine Prod.ext ?_ rfl
  rw [← String.toList_inj, String.toList_intercalate]
  simp

/-- The preview has 513 letters that the header has 512 of. -/
theorem not_shows_restart : ¬ Shows (previewText (restartPreview longWarning))
    (stepHeaderText plainPalette "RestartService" (restartPreview longWarning)).1 := by
  intro h
  have hcount := List.Sublist.count_le 'z' h
  rw [stepHeaderText_restart, String.toList_append, String.toList_append, List.count_append,
    List.count_append] at hcount
  have hhead : "\n  ▶ RestartService  Restart nginx\n".toList.count 'z' = 0 := by decide
  have hsign : "    ! ".toList.count 'z' = 0 := by decide
  have hkept : (operatorSafe longWarning).toList.count 'z' ≤ 512 :=
    count_operatorSafe_le longWarning (by decide)
  have hstays : stays 'z' = true := by decide
  have hletters (n : ℕ) : (String.ofList (List.replicate n 'z')).toList.count 'z' = n := by
    rw [String.toList_ofList, List.count_replicate_self]
  have hwarning : longWarning.toList.count 'z' = 513 := hletters 513
  have hsource : longWarning.toList.count 'z' ≤
      ((previewText (restartPreview longWarning)).filter stays).count 'z' := by
    have hpart : ([longWarning].flatMap String.toList).Sublist
        (previewText (restartPreview longWarning)) :=
      (List.sublist_append_left _ _).trans (List.sublist_append_right _ _)
    rw [List.flatMap_singleton] at hpart
    rw [List.count_filter hstays]
    exact List.Sublist.count_le 'z' hpart
  omega

/-- The header keeps 512 letters of the warning and counts nothing. -/
theorem not_consentViews : ¬ ∀ palette : Palette,
    ConsentViews palette (fun _ => True) fun _ => True := by
  intro h
  have htraces : Prog.Traces (executePlan restartPlan {})
      (restartCalls ++ [⟨.confirm (.applyStep 0 ⟨"RestartService", "Restart nginx", .obj [],
        .medium⟩), true⟩]) :=
    .step rfl (.step rfl (.step rfl (.step rfl (.step rfl (.start _)))))
  have hrendered : Rendered plainPalette (restartCalls ++
      [⟨.confirm (.applyStep 0 ⟨"RestartService", "Restart nginx", .obj [], .medium⟩), true⟩]) := by
    intro i action preview view hmem
    simp only [restartCalls, List.cons_append, List.nil_append, List.mem_cons, Sigma.mk.injEq,
      reduceCtorEq, false_and, false_or, List.not_mem_nil, or_false,
      RunCall.printStepHeader.injEq] at hmem
    obtain ⟨⟨-, rfl, rfl⟩, hview⟩ := hmem
    rw [restartPrepared, stepHeaderText_restart]
    exact eq_of_heq hview
  obtain ⟨before, prepared, view, hpre, hshows⟩ := (h plainPalette).asked restartPlan {} _ rfl
    htraces hrendered (fun _ _ _ _ _ _ => trivial) rfl
  have hheaders : restartCalls.take 3 ++
      [⟨.printStepHeader 0 "RestartService" restartPrepared.preview, {}⟩] =
      (before ++ [⟨.previewDeclaring 0 "RestartService" (.obj []) false, .ok prepared⟩]) ++
        [⟨.printStepHeader 0 "RestartService" prepared.preview, view⟩] := by
    rw [List.append_assoc]
    exact hpre
  obtain ⟨-, -, hpreview, -⟩ := header_of_concat hheaders
  rw [← hpreview] at hshows
  exact not_shows_restart hshows

end Cli

end Sysknife
