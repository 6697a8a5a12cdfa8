import Sysknife.Shell.Backend
import Sysknife.Shell.Session

/-!
# The backend's events in the frontend

`subscribeDaemonEvents` (`daemonBridge.ts`) registers a listener for each kind of event, with the
callbacks of `App.tsx`. An event reaches the listeners that are registered under its name.

* `learned_of_emittedNames`: were the listeners registered under the names the backend emits, the
  shell would review every execution, with all its lines in the timeline.
* `not_learned`: **they are not: whatever the backend emits, the shell goes on executing.**
-/

namespace Sysknife.Shell

/-! ### Listeners -/

/-- The outcome as the frontend spells it. -/
def DaemonJobOutcome.toShell : DaemonJobOutcome → ShellOutcome
  | .succeeded => .succeeded
  | .needsReboot => .needsReboot
  | .failed => .failed
  | .rolledBack => .rolledBack

/-- What an event starts in the frontend, if its payload is of the kind that is listened for. -/
abbrev Listener := ℕ → Payload → Option Event

def onTimeline : Listener
  | _, .timelineEntry text => some (.timelineEntry text)
  | _, _ => none

def onOutcome : Listener
  | execution, .jobCompleted outcome => some (.jobCompleted execution outcome.toShell)
  | _, _ => none

def onDaemonStatus : Listener
  | _, .daemonStatus status =>
    some (.daemonStatus (if status = "connected" then .connected else .unreachable))
  | _, _ => none

def onExecutionResult : Listener
  | execution, .executionResult result => some (.executionResult execution result)
  | _, _ => none

/-- The listeners that are registered, each under a name. -/
def subscribeDaemonEvents : List (String × Listener) :=
  [("lacs:timeline-entry", onTimeline), ("lacs:job-completed", onOutcome),
    ("lacs:daemon-status", onDaemonStatus), ("lacs:execution-result", onExecutionResult)]

/-- The same listeners under the names that events are emitted under. -/
def emittedNames : List (String × Listener) :=
  [("sysknife:timeline-entry", onTimeline), ("sysknife:job-completed", onOutcome),
    ("sysknife:daemon-status", onDaemonStatus), ("sysknife:execution-result", onExecutionResult)]

/-- What comes to the frontend: an event, or the return of the call that started the run. -/
inductive Input
  | emitted (event : Emitted)
  | returned

def Input.event : Input → Option Emitted
  | .emitted event => some event
  | .returned => none

section Deliver

variable (listeners : List (String × Listener)) (execution : ℕ)

/-- What an event starts: its listeners are those under its name. -/
def heard (event : Emitted) : List Event :=
  listeners.filterMap fun listener =>
    if listener.1 = event.name then listener.2 execution event.payload else none

/-- What an input starts. -/
def started : Input → List Event
  | .emitted event => heard listeners execution event
  | .returned => [.approvalSettled execution (.ok ())]

/-- An input comes at some time. -/
def deliver (s : Session) (input : String × Input) : Session :=
  (started listeners execution input.2).foldl (fun s e => Turn.after ⟨s, input.1, e⟩) s

def deliverAll (s : Session) (inputs : List (String × Input)) : Session :=
  inputs.foldl (deliver listeners execution) s

theorem deliverAll_append (s : Session) (inputs inputs' : List (String × Input)) :
    deliverAll listeners execution s (inputs ++ inputs') =
      deliverAll listeners execution (deliverAll listeners execution s inputs) inputs' :=
  List.foldl_append

theorem deliverAll_cons (s : Session) (input : String × Input) (inputs : List (String × Input)) :
    deliverAll listeners execution s (input :: inputs) =
      deliverAll listeners execution (deliver listeners execution s input) inputs := rfl

end Deliver

/-! ### What the shell is to learn -/

/-- The shell shows the result of the run, or the mode of its outcome. -/
def ShowsOutcome (mode : ShellMode) (run : StepsRun) : Prop :=
  match mode with
  | .reviewing _ result _ => result = executionResult run
  | .idle _ => jobOutcome run.finalStatus = .succeeded
  | .needsReboot _ => jobOutcome run.finalStatus = .needsReboot
  | .rolledBack _ => jobOutcome run.finalStatus = .rolledBack
  | .failed _ => jobOutcome run.finalStatus = .failed
  | _ => False

/-- What the shell knows once it has heard of a run. -/
structure Learned (s : Session) (approved : Approved) : Prop where
  ended : s.state.mode.isExecuting = false
  outcome : ShowsOutcome s.state.mode approved.run
  lines (line : String) (h : timelineEntry line ∈ approved.events) :
    ∃ entry ∈ s.state.timeline, entry.text = line

/-! ### Lines of the timeline -/

/-- The shell is where it was, with further lines in its timeline. -/
structure Carries (s s' : Session) (lines : List String) : Prop where
  mode : s'.state.mode = s.state.mode
  pending : s'.pendingExecutionResult = s.pendingExecutionResult
  timeline : s'.state.timeline.map TimelineEntry.text =
    s.state.timeline.map TimelineEntry.text ++ lines

section Lines

variable {listeners : List (String × Listener)} {execution : ℕ} {s s' s'' : Session}
  {lines lines' : List String} {inputs : List (String × Input)}

theorem Carries.refl (s : Session) : Carries s s [] := ⟨rfl, rfl, (List.append_nil _).symm⟩

theorem Carries.trans (h : Carries s s' lines) (h' : Carries s' s'' lines') :
    Carries s s'' (lines ++ lines') where
  mode := h'.mode.trans h.mode
  pending := h'.pending.trans h.pending
  timeline := by rw [h'.timeline, h.timeline, List.append_assoc]

theorem carries_returned (s : Session) (now : String) :
    Carries s (deliver listeners execution s (now, .returned)) [] :=
  ⟨rfl, rfl, (List.append_nil _).symm⟩

theorem carries_timelineEntry (s : Session) (now line : String) :
    Carries s (deliver emittedNames execution s (now, .emitted (timelineEntry line))) [line] := by
  have hheard : heard emittedNames execution (timelineEntry line) = [.timelineEntry line] := by
    simp [heard, emittedNames, timelineEntry, onTimeline]
  rw [deliver, started, hheard]
  exact ⟨rfl, rfl, List.map_append⟩

/-- Lines come one after the other; the return of the call adds none. -/
theorem carries_deliverAll
    (h : inputs.filterMap (fun input => input.2.event) = lines.map timelineEntry) :
    Carries s (deliverAll emittedNames execution s inputs) lines := by
  induction inputs generalizing s lines with
  | nil =>
    obtain rfl := List.map_eq_nil_iff.mp h.symm
    exact Carries.refl s
  | cons input inputs ih =>
    obtain ⟨now, input⟩ := input
    cases input with
    | returned => exact (carries_returned s now).trans (ih h)
    | emitted event =>
      cases lines with
      | nil => cases h
      | cons line lines =>
        obtain ⟨rfl, hrest⟩ := List.cons.inj h
        exact (carries_timelineEntry s now line).trans (ih hrest)

end Lines

/-! ### The end of a run -/

section Ends

variable {app : AppHandle} {socketPath : String} {steps : List (PlanStepRequest × StepReplies)}
  {execution : ℕ} {s : Session} {inputs : List (String × Input)}

theorem deliver_executionResult (now : String) (result : ExecutionResult) :
    deliver emittedNames execution s
        (now, .emitted ⟨"sysknife:execution-result", .executionResult result⟩) =
      { s with pendingExecutionResult := some result } := by
  have hheard : heard emittedNames execution
      ⟨"sysknife:execution-result", .executionResult result⟩ =
        [.executionResult execution result] := by
    simp [heard, emittedNames, onExecutionResult]
  rw [deliver, started, hheard]
  rfl

theorem exists_of_isExecuting {mode : ShellMode} (h : mode.isExecuting = true) :
    ∃ plan activeJobId, mode = .executing plan activeJobId := by
  cases mode with
  | executing plan activeJobId => exact ⟨plan, activeJobId, rfl⟩
  | _ => cases h

/-- An outcome after a result is reviewed. -/
theorem state_deliver_jobCompleted {plan : PlanResponse} {activeJobId : String}
    {result : ExecutionResult} (hmode : s.state.mode = .executing plan activeJobId)
    (hpending : s.pendingExecutionResult = some result) (now : String)
    (outcome : DaemonJobOutcome) :
    (deliver emittedNames execution s
        (now, .emitted ⟨"sysknife:job-completed", .jobCompleted outcome⟩)).state =
      appendTimeline now { s.state with mode := .reviewing plan result none }
        "Execution complete — reviewing results" .success := by
  have hheard : heard emittedNames execution
      ⟨"sysknife:job-completed", .jobCompleted outcome⟩ =
        [.jobCompleted execution outcome.toShell] := by
    simp [heard, emittedNames, onOutcome]
  have hreviewed : s.reviewed outcome.toShell = some result := by
    rw [Session.reviewed, hpending]
    exact if_neg (by cases outcome <;> decide)
  rw [deliver, started, hheard]
  simp only [List.foldl_cons, List.foldl_nil, Turn.after, Session.dispatches, hreviewed]
  simp only [shellReducer, hmode]

theorem eq_emitted {input : Input} {event : Emitted} (h : input.event = some event) :
    input = .emitted event := by
  cases input with
  | emitted event' => exact congrArg Input.emitted (Option.some.inj h)
  | returned => cases h

/-- Up to the next event nothing changes. -/
theorem exists_next {event : Emitted} {events : List Emitted} (s : Session)
    (h : inputs.filterMap (fun input => input.2.event) = event :: events) :
    ∃ s' now rest, Carries s s' [] ∧ rest.filterMap (fun input => input.2.event) = events ∧
      deliverAll emittedNames execution s inputs =
        deliverAll emittedNames execution
          (deliver emittedNames execution s' (now, .emitted event)) rest := by
  obtain ⟨before, ⟨now, input⟩, rest, rfl, hbefore, hinput, hrest⟩ :=
    List.filterMap_eq_cons_iff.mp h
  obtain rfl := eq_emitted hinput
  refine ⟨deliverAll emittedNames execution s before, now, rest, ?_, hrest, ?_⟩
  · exact carries_deliverAll (List.filterMap_eq_nil_iff.mpr hbefore)
  · rw [deliverAll_append, deliverAll_cons]

/-- The lines, the result and the outcome, in this order. -/
theorem reviewing_deliverAll {plan : PlanResponse} {activeJobId : String} {lines : List String}
    {result : ExecutionResult} {outcome : DaemonJobOutcome}
    (hmode : s.state.mode = .executing plan activeJobId)
    (hinputs : inputs.filterMap (fun input => input.2.event) = lines.map timelineEntry ++
      [⟨"sysknife:execution-result", .executionResult result⟩,
        ⟨"sysknife:job-completed", .jobCompleted outcome⟩]) :
    (deliverAll emittedNames execution s inputs).state.mode = .reviewing plan result none ∧
      (deliverAll emittedNames execution s inputs).state.timeline.map TimelineEntry.text =
        s.state.timeline.map TimelineEntry.text ++ lines ++
          ["Execution complete — reviewing results"] := by
  obtain ⟨before, rest, rfl, hlines, hrest⟩ := List.filterMap_eq_append_iff.mp hinputs
  rw [deliverAll_append]
  have hbefore := @carries_deliverAll execution s lines before hlines
  generalize deliverAll emittedNames execution s before = s₀ at hbefore
  obtain ⟨s₁, now, rest', hs₁, hrest', heq⟩ := @exists_next execution rest _ _ s₀ hrest
  obtain ⟨s₂, now', after, hs₂, hafter, heq'⟩ := @exists_next execution rest' _ _
    (deliver emittedNames execution s₁
      (now, .emitted ⟨"sysknife:execution-result", .executionResult result⟩)) hrest'
  rw [heq, heq']
  rw [deliver_executionResult] at hs₂
  have hmode₂ : s₂.state.mode = .executing plan activeJobId :=
    hs₂.mode.trans (hs₁.mode.trans (hbefore.mode.trans hmode))
  have hstate := @state_deliver_jobCompleted execution s₂ plan activeJobId result hmode₂
    hs₂.pending now' outcome
  have hend := @carries_deliverAll execution (deliver emittedNames execution s₂
    (now', .emitted ⟨"sysknife:job-completed", .jobCompleted outcome⟩)) [] after hafter
  refine ⟨hend.mode.trans (by rw [hstate]; rfl), ?_⟩
  have htexts : s₂.state.timeline.map TimelineEntry.text =
      s.state.timeline.map TimelineEntry.text ++ lines := by
    rw [hs₂.timeline, List.append_nil, hs₁.timeline, List.append_nil, hbefore.timeline]
  rw [hend.timeline, hstate, List.append_nil, ← htexts]
  exact List.map_append

/-- **Under the names of the backend the shell would learn of every run.** -/
theorem learned_of_emittedNames (hon : s.state.mode.isExecuting = true)
    (hreturned : (approvePreview app socketPath steps).result = .ok ())
    (hinputs : inputs.filterMap (fun input => input.2.event) =
      (approvePreview app socketPath steps).events) :
    Learned (deliverAll emittedNames execution s inputs) (approvePreview app socketPath steps) := by
  obtain ⟨lines, hevents⟩ := emitted_approvePreview hreturned
  obtain ⟨plan, activeJobId, hmode⟩ := exists_of_isExecuting hon
  obtain ⟨hreviewing, htimeline⟩ := reviewing_deliverAll hmode (hinputs.trans hevents)
  refine ⟨by rw [hreviewing]; rfl, by rw [hreviewing]; rfl, fun line hline => ?_⟩
  have hmem : line ∈ lines := by
    rw [hevents] at hline
    simpa [timelineEntry] using hline
  have htext : line ∈ (deliverAll emittedNames execution s inputs).state.timeline.map
      TimelineEntry.text := by
    rw [htimeline]
    exact List.mem_append_left _ (List.mem_append_right _ hmem)
  exact List.mem_map.mp htext

/-- The name of what is emitted. -/
theorem name_of_mem_events (hreturned : (approvePreview app socketPath steps).result = .ok ())
    {event : Emitted} (h : event ∈ (approvePreview app socketPath steps).events) :
    event.name ∈ emittedNames.map Prod.fst := by
  obtain ⟨lines, hevents⟩ := emitted_approvePreview hreturned
  rw [hevents, List.mem_append, List.mem_map] at h
  rcases h with ⟨line, -, rfl⟩ | h
  · exact List.mem_cons_self
  · have hends : ∀ name ∈ ["sysknife:execution-result", "sysknife:job-completed"],
        name ∈ emittedNames.map Prod.fst := by decide
    rcases List.mem_pair.mp h with rfl | rfl
    · exact hends _ List.mem_cons_self
    · exact hends _ (List.mem_cons_of_mem _ List.mem_cons_self)

/-- Nothing that is emitted is heard. -/
theorem heard_subscribeDaemonEvents {event : Emitted}
    (h : event.name ∈ emittedNames.map Prod.fst) :
    heard subscribeDaemonEvents execution event = [] := by
  have hnames : ∀ name ∈ emittedNames.map Prod.fst,
      name ∉ subscribeDaemonEvents.map Prod.fst := by decide
  rw [heard, List.filterMap_eq_nil_iff]
  intro listener hlistener
  rw [if_neg]
  rintro hname
  exact hnames _ h (hname ▸ List.mem_map_of_mem hlistener)

/-- So the mode stays as it is. -/
theorem mode_deliverAll
    (h : ∀ event ∈ inputs.filterMap (fun input => input.2.event),
      event.name ∈ emittedNames.map Prod.fst) :
    (deliverAll subscribeDaemonEvents execution s inputs).state.mode = s.state.mode := by
  induction inputs generalizing s with
  | nil => rfl
  | cons input inputs ih =>
    obtain ⟨now, input⟩ := input
    cases input with
    | returned => exact (ih h).trans (carries_returned s now).mode
    | emitted event =>
      obtain ⟨hevent, hrest⟩ := List.forall_mem_cons.mp h
      have hsame : deliver subscribeDaemonEvents execution s (now, .emitted event) = s := by
        rw [deliver, started, heard_subscribeDaemonEvents hevent]
        rfl
      rw [deliverAll_cons, hsame]
      exact ih hrest

end Ends

/-- **The shell never learns of a run.** When `approve_preview` has returned and all that it emitted
has been delivered, the shell is still executing. -/
theorem not_learned (app : AppHandle) (socketPath : String)
    (steps : List (PlanStepRequest × StepReplies)) (execution : ℕ) (s : Session)
    (inputs : List (String × Input)) (hon : s.state.mode.isExecuting = true)
    (hreturned : (approvePreview app socketPath steps).result = .ok ())
    (hinputs : inputs.filterMap (fun input => input.2.event) =
      (approvePreview app socketPath steps).events) :
    ¬ Learned (deliverAll subscribeDaemonEvents execution s inputs)
      (approvePreview app socketPath steps) := by
  intro h
  have hmode : (deliverAll subscribeDaemonEvents execution s inputs).state.mode = s.state.mode :=
    mode_deliverAll fun event hevent => name_of_mem_events hreturned (hinputs ▸ hevent)
  have hended := h.ended
  rw [hmode, hon] at hended
  cases hended

/-- An application that can emit everything. -/
def plainApp : AppHandle := ⟨fun _ => none⟩

/-- A step whose connection times out. -/
def unreachableStep : PlanStepRequest × StepReplies :=
  (⟨"RestartService", .obj []⟩, ⟨none, .ok (), .timedOut, .ok (), .timedOut, .ok (), []⟩)

def restartResponse : PlanResponse :=
  ⟨"Restart nginx", "It serves stale pages.", true,
    [⟨"RestartService", "Restart nginx", .medium, true, .obj []⟩], "host", "", 0, 0⟩

/-- The operator has approved, and the call is made. -/
def approvedSession : Session where
  state := ⟨.executing restartResponse "pending", "restart nginx", .connected, []⟩
  approvals := Calls.make {} restartResponse.steps

/-- All that is emitted, and then the return of the call. -/
def unreachableInputs : List (String × Input) :=
  ((approvePreview plainApp "/run/sysknife.sock" [unreachableStep]).events.map fun event =>
    ("12:00:00", .emitted event)) ++ [("12:00:01", .returned)]

theorem events_unreachableInputs : unreachableInputs.filterMap (fun input => input.2.event) =
    (approvePreview plainApp "/run/sysknife.sock" [unreachableStep]).events := by
  rw [unreachableInputs, List.filterMap_append, List.filterMap_map]
  exact (List.append_nil _).trans List.filterMap_some

theorem not_learned_unreachable :
    ¬ Learned (deliverAll subscribeDaemonEvents 0 approvedSession unreachableInputs)
      (approvePreview plainApp "/run/sysknife.sock" [unreachableStep]) :=
  not_learned plainApp "/run/sysknife.sock" [unreachableStep] 0 approvedSession unreachableInputs
    rfl rfl events_unreachableInputs

/-- The failure of a step that is not executed is emitted, and the shell goes on executing. -/
theorem still_executing : ¬ ∀ (app : AppHandle) (socketPath : String)
    (steps : List (PlanStepRequest × StepReplies)) (execution : ℕ) (s : Session)
    (inputs : List (String × Input)), s.state.mode.isExecuting = true →
    (approvePreview app socketPath steps).result = .ok () →
    inputs.filterMap (fun input => input.2.event) =
      (approvePreview app socketPath steps).events →
    Learned (deliverAll subscribeDaemonEvents execution s inputs)
      (approvePreview app socketPath steps) := by
  intro h
  have hended := (h plainApp "/run/sysknife.sock" [unreachableStep] 0 approvedSession
    unreachableInputs rfl rfl events_unreachableInputs).ended
  have hmode : (deliverAll subscribeDaemonEvents 0 approvedSession unreachableInputs).state.mode =
      approvedSession.state.mode :=
    mode_deliverAll fun event hevent =>
      name_of_mem_events rfl (events_unreachableInputs ▸ hevent)
  rw [hmode] at hended
  cases hended

end Sysknife.Shell
