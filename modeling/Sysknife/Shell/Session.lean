import Sysknife.Shell.State

/-!
# A session of the desktop shell

`App.tsx` dispatches actions from its handlers: on what the operator does, when a call to the
backend is settled, and on the daemon's events. Calls are settled in any order, also when the
shell has long gone on to something else. A **turn** is one handler up to its end or its next
`await`; nothing runs in between, so a run is a sequence of turns (`Run`).

* `executing_of_entered`: an execution is entered by an approval of the plan that is shown.
* `faithful_iff`: **when the shell shows the plan of its intent.** In a run every shown plan
  answers the intent it stands under, and every execution is left through its own completion, if
  and only if plans and outcomes arrive in time (`Timely`).
-/

namespace Sysknife.Shell

/-! ### Calls to the backend -/

/-- The calls that were made, and the answers that have come. A call is named by its number. -/
structure Calls (α β : Type) where
  made : List α := []
  settled : List (ℕ × β) := []

namespace Calls

variable {α β : Type} (calls : Calls α β)

def make (a : α) : Calls α β := { calls with made := calls.made ++ [a] }

def settle (i : ℕ) (b : β) : Calls α β := { calls with settled := (i, b) :: calls.settled }

/-- The call is still awaited. -/
def Waiting (i : ℕ) : Prop := i < calls.made.length ∧ ∀ b, (i, b) ∉ calls.settled

end Calls

/-- What a call throws. -/
inductive Rejection
  | shellError (error : ShellError)
  | other (text : String)

/-- The error that is shown for it. -/
def Rejection.toShellError : Rejection → ShellError
  | .shellError error => error
  | .other text => ⟨"unknown", text, false⟩

/-! ### Events -/

/-- What the component holds. -/
structure Session where
  state : ShellState := initialShellState
  pendingExecutionResult : Option ExecutionResult := none
  /-- `requestPlan` -/
  plans : Calls String (Except Rejection PlanResponse) := {}
  /-- `requestApproval`; each starts an execution. -/
  approvals : Calls (List PlanStepResponse) (Except String Unit) := {}
  /-- `cancelJob` -/
  cancellations : Calls String (Except String Unit) := {}
  /-- `reviewExecution` -/
  reviews : Calls (ExecutionResult × String) (Except String String) := {}

/-- What starts a handler, or lets it go on. The daemon's events come from an execution. -/
inductive Event
  | submit (intent : String)
  | approve
  | cancel
  | reset
  | dismissReview
  | planSettled (request : ℕ) (answer : Except Rejection PlanResponse)
  | approvalSettled (execution : ℕ) (answer : Except String Unit)
  | cancelSettled (cancellation : ℕ) (answer : Except String Unit)
  | reviewSettled (review : ℕ) (answer : Except String String)
  | timelineEntry (text : String)
  | jobCompleted (execution : ℕ) (outcome : ShellOutcome)
  | daemonStatus (status : DaemonStatus)
  | executionResult (execution : ℕ) (result : ExecutionResult)
  /-- The setup check or the configuration has something to say. -/
  | notice (text : String)

namespace Session

variable (s : Session)

/-- The execution result that is reviewed on an outcome. -/
def reviewed (outcome : ShellOutcome) : Option ExecutionResult :=
  if outcome = .canceled then none else s.pendingExecutionResult

/-- What a handler dispatches. -/
def dispatches : Event → List ShellAction
  | .submit intent => if intent = "" then [] else [.intentSubmitted intent]
  | .approve =>
    match s.state.mode with
    | .awaitingApproval _ _ => [.approvalGranted]
    | _ => []
  | .cancel => [.cancelRequested]
  | .reset => [.reset]
  | .dismissReview => [.dismissReview]
  | .planSettled request (.ok plan) =>
    [.daemonStatusChanged .connected, .planReady plan] ++
      if plan.approvalRequired then [.requestApproval]
      else
        [.timelineEvent
            ("Read-only plan completed: " ++ (s.plans.made[request]?).getD "") .success,
          .jobCompleted .succeeded]
  | .planSettled _ (.error rejection) =>
    [.daemonStatusChanged .unreachable, .planErrored rejection.toShellError]
  | .approvalSettled _ (.ok ()) => [.daemonStatusChanged .connected]
  | .approvalSettled _ (.error message) =>
    [.timelineEvent ("Approval failed: " ++ message) .error, .daemonStatusChanged .unreachable,
      .jobCompleted .failed]
  | .cancelSettled _ (.ok ()) => []
  | .cancelSettled _ (.error _) =>
    [.timelineEvent
      "Cancellation request failed — daemon will resolve the job eventually" .warning]
  | .reviewSettled _ (.ok summary) => if summary = "" then [] else [.summaryReady summary]
  | .reviewSettled _ (.error _) => []
  | .timelineEntry text => [.timelineEvent text .system]
  | .jobCompleted _ outcome =>
    match s.reviewed outcome with
    | some result => [.executionReviewReady result]
    | none => [.jobCompleted outcome]
  | .daemonStatus status => [.daemonStatusChanged status]
  | .executionResult _ _ => []
  | .notice text => [.timelineEvent text .warning]

/-- The calls a handler makes, and what else it sets. -/
def called : Event → Session
  | .submit intent => if intent = "" then s else { s with plans := s.plans.make intent }
  | .approve =>
    match s.state.mode with
    | .awaitingApproval plan _ => { s with approvals := s.approvals.make plan.steps }
    | _ => s
  | .cancel =>
    match s.state.mode with
    | .executing _ activeJobId => { s with cancellations := s.cancellations.make activeJobId }
    | _ => s
  | .planSettled request answer => { s with plans := s.plans.settle request answer }
  | .approvalSettled execution answer =>
    { s with approvals := s.approvals.settle execution answer }
  | .cancelSettled cancellation answer =>
    { s with cancellations := s.cancellations.settle cancellation answer }
  | .reviewSettled review answer => { s with reviews := s.reviews.settle review answer }
  | .jobCompleted _ outcome =>
    match s.reviewed outcome with
    | some result =>
      { s with pendingExecutionResult := none, reviews := s.reviews.make (result, s.state.intent) }
    | none => s
  | .executionResult _ result => { s with pendingExecutionResult := some result }
  | _ => s

/-- When something can happen. What the operator can do is what the panes offer. -/
def Enabled : Event → Prop
  | .submit _ => ∃ error, s.state.mode = .idle error
  | .approve => ∃ plan planError, s.state.mode = .awaitingApproval plan planError
  | .cancel => (∃ plan activeJobId, s.state.mode = .executing plan activeJobId) ∨
      ∃ plan, s.state.mode = .failed plan
  | .reset => s.state.mode.isExecuting = false
  | .dismissReview => ∃ plan result summary, s.state.mode = .reviewing plan result summary
  | .planSettled request _ => s.plans.Waiting request
  | .approvalSettled execution _ => s.approvals.Waiting execution
  | .cancelSettled cancellation _ => s.cancellations.Waiting cancellation
  | .reviewSettled review _ => s.reviews.Waiting review
  | .jobCompleted execution _ => execution < s.approvals.made.length
  | .executionResult execution _ => execution < s.approvals.made.length
  | .timelineEntry _ => True
  | .daemonStatus _ => True
  | .notice _ => True

end Session

/-- A handler runs. -/
structure Turn where
  before : Session
  now : String
  event : Event

namespace Turn

variable (t : Turn)

/-- The states of the reducer, the one before included. -/
def visited : List ShellState :=
  (t.before.dispatches t.event).scanl (shellReducer t.now) t.before.state

def after : Session :=
  { t.before.called t.event with
    state := (t.before.dispatches t.event).foldl (shellReducer t.now) t.before.state }

end Turn

/-- The turns so far, and the session they led to. -/
inductive Run : List Turn → Session → Prop
  | start : Run [] {}
  | turn {run : List Turn} {s : Session} (h : Run run s) (now : String) (event : Event)
      (henabled : s.Enabled event) : Run (run ++ [⟨s, now, event⟩]) (Turn.after ⟨s, now, event⟩)

/-! ### What a session promises -/

/-- The plan is the answer to a request for this intent. -/
def Answers (plans : Calls String (Except Rejection PlanResponse)) (intent : String)
    (plan : PlanResponse) : Prop :=
  ∃ request, plans.made[request]? = some intent ∧ (request, .ok plan) ∈ plans.settled

/-- The plan that is shown answers the intent that is shown with it. -/
def Session.Shows (s : Session) : Prop :=
  ∀ plan, s.state.mode.shownPlan = some plan → Answers s.plans s.state.intent plan

/-- The execution whose completion or failure is reported. -/
def Event.reported : Event → Option ℕ
  | .jobCompleted execution _ => some execution
  | .approvalSettled execution (.error _) => some execution
  | _ => none

/-- The report is about the execution that was started last, which is the one that is on. -/
def Session.Completes (s : Session) (event : Event) : Prop :=
  ∃ execution, event.reported = some execution ∧ execution + 1 = s.approvals.made.length

/-- What is promised of a turn. -/
structure Faithful (t : Turn) : Prop where
  shown (state : ShellState) (h : state ∈ t.visited) (plan : PlanResponse)
    (hplan : state.mode.shownPlan = some plan) : Answers t.after.plans state.intent plan
  leaves (hon : t.before.state.mode.isExecuting = true)
    (hleft : ∃ state ∈ t.visited, state.mode.isExecuting = false) : t.before.Completes t.event

/-- What a turn has to find for it. -/
structure Timely (t : Turn) : Prop where
  /-- A plan comes while the intent it answers is shown, if this plan has not answered that
  intent before. -/
  plan (request : ℕ) (plan : PlanResponse) (h : t.event = .planSettled request (.ok plan)) :
    t.before.plans.made[request]? = some t.before.state.intent ∨
      Answers t.before.plans t.before.state.intent plan
  /-- No plan request is settled during an execution. -/
  between (request : ℕ) (answer : Except Rejection PlanResponse)
    (h : t.event = .planSettled request answer) : t.before.state.mode.isExecuting = false
  /-- What is reported during an execution is reported about it. -/
  report (execution : ℕ) (h : t.event.reported = some execution)
    (hon : t.before.state.mode.isExecuting = true) :
    execution + 1 = t.before.approvals.made.length

/-! ### Along the actions of a handler -/

section Actions

variable {now : String} {actions : List ShellAction} {state state' : ShellState}
  {plan : PlanResponse}

/-- Where no plan comes, a plan that is shown was shown before, with the same intent. -/
theorem shown_of_mem_scanl (hplans : ∀ action ∈ actions, action.bringsPlan = false)
    (hmem : state' ∈ actions.scanl (shellReducer now) state)
    (h : state'.mode.shownPlan = some plan) :
    state'.intent = state.intent ∧ state.mode.shownPlan = some plan := by
  induction actions generalizing state with
  | nil =>
    obtain rfl := List.mem_singleton.mp (List.scanl_nil ▸ hmem)
    exact ⟨rfl, h⟩
  | cons action actions ih =>
    obtain ⟨haction, hactions⟩ := List.forall_mem_cons.mp hplans
    rw [List.scanl_cons, List.mem_cons] at hmem
    rcases hmem with rfl | hmem
    · exact ⟨rfl, h⟩
    · obtain ⟨hintent, hshown⟩ := ih hactions hmem
      obtain ⟨hkept, hbefore⟩ := shown_shellReducer hshown
      refine ⟨hintent.trans hkept, hbefore.resolve_right ?_⟩
      rintro rfl
      cases haction

/-- An execution is left if and only if one of the actions ends it. -/
theorem left_iff (hon : state.mode.isExecuting = true) :
    (∃ state' ∈ actions.scanl (shellReducer now) state, state'.mode.isExecuting = false) ↔
      ∃ action ∈ actions, action.leavesExecuting = true := by
  induction actions generalizing state with
  | nil => simp [hon]
  | cons action actions ih =>
    rw [List.scanl_cons, List.exists_mem_cons_iff, List.exists_mem_cons_iff, hon]
    cases haction : action.leavesExecuting with
    | false => simpa using ih (executing_shellReducer hon haction)
    | true =>
      have hended : (shellReducer now state action).mode.isExecuting = false :=
        not_executing_shellReducer hon haction
      refine iff_of_true (.inr ⟨shellReducer now state action, ?_, hended⟩) (.inl rfl)
      exact List.mem_of_mem_head? List.head?_scanl

theorem entered_foldl
    (hentered : (actions.foldl (shellReducer now) state).mode.isExecuting = true) :
    state.mode.isExecuting = true ∨ .approvalGranted ∈ actions := by
  induction actions generalizing state with
  | nil => exact .inl hentered
  | cons action actions ih =>
    rcases ih hentered with hon | hmem
    · rcases entered_shellReducer hon with hon | rfl
      · exact .inl hon
      · exact .inr List.mem_cons_self
    · exact .inr (List.mem_cons_of_mem _ hmem)

end Actions

/-! ### One turn -/

section Turns

variable {s : Session} {now : String} {event : Event} {intent : String} {plan : PlanResponse}

/-- What an action is due to, for those that matter to the plan and to an execution. -/
def ShellAction.DueTo (event : Event) : ShellAction → Prop
  | .intentSubmitted intent => event = .submit intent
  | .planReady plan => ∃ request, event = .planSettled request (.ok plan)
  | .approvalGranted => event = .approve
  | .jobCompleted _ => (∃ request answer, event = .planSettled request answer) ∨
      ∃ execution, event.reported = some execution
  | .executionReviewReady _ => ∃ execution, event.reported = some execution
  | .planErrored _ => ∃ request answer, event = .planSettled request answer
  | .reset => event = .reset
  | _ => True

theorem dueTo_of_mem_dispatches {action : ShellAction} (h : action ∈ s.dispatches event) :
    action.DueTo event := by
  cases event with
  | planSettled request answer =>
    cases answer with
    | ok plan =>
      have hplan : ShellAction.DueTo (.planSettled request (.ok plan)) (.planReady plan) :=
        ⟨request, rfl⟩
      have hread : ShellAction.DueTo (.planSettled request (.ok plan)) (.jobCompleted .succeeded) :=
        .inl ⟨request, .ok plan, rfl⟩
      rcases List.mem_append.mp h with h | h
      · rcases List.mem_pair.mp h with rfl | rfl
        · trivial
        · exact hplan
      · cases happroval : plan.approvalRequired with
        | true =>
          obtain rfl := List.mem_singleton.mp (by simpa [happroval] using h)
          trivial
        | false =>
          rw [happroval] at h
          rcases List.mem_pair.mp h with rfl | rfl
          · trivial
          · exact hread
    | error rejection =>
      simp only [Session.dispatches, List.mem_cons, List.not_mem_nil, or_false] at h
      rcases h with rfl | rfl <;> simp [ShellAction.DueTo]
  | approvalSettled execution answer =>
    cases answer <;> simp only [Session.dispatches, List.mem_cons, List.not_mem_nil,
      or_false] at h
    · rcases h with rfl | rfl | rfl <;> simp [ShellAction.DueTo, Event.reported]
    · simp [h, ShellAction.DueTo]
  | cancelSettled _ answer => cases answer <;> simp_all [Session.dispatches, ShellAction.DueTo]
  | reviewSettled _ answer =>
    cases answer with
    | ok summary =>
      by_cases hempty : summary = "" <;> simp_all [Session.dispatches, ShellAction.DueTo]
    | error message => simp [Session.dispatches] at h
  | submit intent =>
    by_cases hempty : intent = "" <;> simp_all [Session.dispatches, ShellAction.DueTo]
  | approve => cases hmode : s.state.mode <;> simp_all [Session.dispatches, ShellAction.DueTo]
  | jobCompleted execution outcome =>
    cases hresult : s.reviewed outcome <;>
      simp_all [Session.dispatches, ShellAction.DueTo, Event.reported]
  | _ => simp_all [Session.dispatches, ShellAction.DueTo]

/-- Only the answer to a request brings a plan. -/
theorem bringsPlan_of_mem_dispatches
    (h : ∀ request plan, event ≠ .planSettled request (.ok plan)) :
    ∀ action ∈ s.dispatches event, action.bringsPlan = false := by
  intro action haction
  have hdue := dueTo_of_mem_dispatches haction
  cases action with
  | planReady plan =>
    obtain ⟨request, heq⟩ := hdue
    exact absurd heq (h request plan)
  | _ => rfl

/-- Nothing takes an answer back. -/
theorem answers_called (event : Event) (h : Answers s.plans intent plan) :
    Answers (s.called event).plans intent plan := by
  obtain ⟨request, hmade, hsettled⟩ := h
  cases event with
  | submit other =>
    by_cases hempty : other = ""
    · simpa [Session.called, hempty] using ⟨request, hmade, hsettled⟩
    · have hlt := (List.getElem?_eq_some_iff.mp hmade).1
      refine ⟨request, ?_, by simpa [Session.called, hempty, Calls.make] using hsettled⟩
      simp [Session.called, hempty, Calls.make, List.getElem?_append_left hlt, hmade]
  | planSettled _ _ => exact ⟨request, hmade, List.mem_cons_of_mem _ hsettled⟩
  | approve =>
    cases hmode : s.state.mode <;>
      simpa [Session.called, hmode] using ⟨request, hmade, hsettled⟩
  | cancel =>
    cases hmode : s.state.mode <;>
      simpa [Session.called, hmode] using ⟨request, hmade, hsettled⟩
  | jobCompleted _ outcome =>
    cases hresult : s.reviewed outcome <;>
      simpa [Session.called, hresult] using ⟨request, hmade, hsettled⟩
  | _ => exact ⟨request, hmade, hsettled⟩

theorem answers_settle_iff {plans : Calls String (Except Rejection PlanResponse)} {request : ℕ} :
    Answers (plans.settle request (.ok plan)) intent plan ↔
      plans.made[request]? = some intent ∨ Answers plans intent plan := by
  constructor
  · rintro ⟨other, hmade, hsettled⟩
    rcases List.mem_cons.mp hsettled with heq | hsettled
    · obtain rfl : other = request := (Prod.mk.inj heq).1
      exact .inl hmade
    · exact .inr ⟨other, hmade, hsettled⟩
  · rintro (hmade | ⟨other, hmade, hsettled⟩)
    · exact ⟨request, hmade, List.mem_cons_self⟩
    · exact ⟨other, hmade, List.mem_cons_of_mem _ hsettled⟩

/-- What a turn shows answers its intent if and only if the plan that comes does. -/
theorem shown_iff (hshows : s.Shows) :
    (∀ state ∈ (Turn.mk s now event).visited, ∀ plan, state.mode.shownPlan = some plan →
        Answers (s.called event).plans state.intent plan) ↔
      ∀ request plan, event = .planSettled request (.ok plan) →
        s.plans.made[request]? = some s.state.intent ∨ Answers s.plans s.state.intent plan := by
  by_cases hplan : ∃ request plan, event = .planSettled request (.ok plan)
  · obtain ⟨request, plan, rfl⟩ := hplan
    -- the plan is shown under the intent of the state it finds
    obtain ⟨rest, hrest, hquiet⟩ : ∃ rest, s.dispatches (.planSettled request (.ok plan)) =
        .daemonStatusChanged .connected :: .planReady plan :: rest ∧
          ∀ action ∈ rest, action.bringsPlan = false := by
      refine ⟨_, rfl, ?_⟩
      cases plan.approvalRequired <;> simp [ShellAction.bringsPlan]
    constructor
    · intro h other p heq
      obtain ⟨rfl, hp⟩ := Event.planSettled.inj heq
      obtain rfl := Except.ok.inj hp
      refine answers_settle_iff.mp (h (shellReducer now (shellReducer now s.state
        (.daemonStatusChanged .connected)) (.planReady plan)) ?_ plan rfl)
      rw [Turn.visited, hrest, List.scanl_cons, List.scanl_cons]
      exact List.mem_cons_of_mem _ (List.mem_cons_of_mem _
        (List.mem_of_mem_head? List.head?_scanl))
    · intro h state hmem p hp
      rw [Turn.visited, hrest, List.scanl_cons, List.scanl_cons, List.mem_cons,
        List.mem_cons] at hmem
      rcases hmem with rfl | rfl | hmem
      · exact answers_called _ (hshows p hp)
      · exact answers_called _ (hshows p hp)
      · obtain ⟨hintent, hshown⟩ := shown_of_mem_scanl hquiet hmem hp
        obtain rfl := Option.some.inj hshown
        rw [hintent]
        exact answers_settle_iff.mpr (h request plan rfl)
  · push Not at hplan
    refine iff_of_true (fun state hmem p hp => ?_) fun request plan heq => ?_
    · obtain ⟨hintent, hshown⟩ :=
        shown_of_mem_scanl (bringsPlan_of_mem_dispatches hplan) hmem hp
      rw [hintent]
      exact answers_called event (hshows p hshown)
    · exact absurd heq (hplan request plan)

/-- During an execution, the answer to a plan request and a report end it, and nothing else. -/
theorem leavesExecuting_iff (henabled : s.Enabled event)
    (hon : s.state.mode.isExecuting = true) :
    (∃ action ∈ s.dispatches event, action.leavesExecuting = true) ↔
      (∃ request answer, event = .planSettled request answer) ∨
        ∃ execution, event.reported = some execution := by
  constructor
  · rintro ⟨action, haction, hleaves⟩
    have hdue := dueTo_of_mem_dispatches haction
    cases action with
    | intentSubmitted intent =>
      obtain rfl : event = .submit intent := hdue
      obtain ⟨error, hmode⟩ := henabled
      rw [hmode] at hon
      cases hon
    | reset =>
      obtain rfl : event = .reset := hdue
      exact absurd (hon.symm.trans henabled) (by decide)
    | planReady plan =>
      obtain ⟨request, heq⟩ := hdue
      exact .inl ⟨request, .ok plan, heq⟩
    | planErrored error => exact .inl hdue
    | jobCompleted outcome => exact hdue
    | executionReviewReady result => exact .inr hdue
    | _ => cases hleaves
  · rintro (⟨request, answer, rfl⟩ | ⟨execution, hreported⟩)
    · cases answer <;> simp [Session.dispatches, ShellAction.leavesExecuting]
    · cases event with
      | jobCompleted _ outcome =>
        cases hresult : s.reviewed outcome <;>
          simp [Session.dispatches, ShellAction.leavesExecuting, hresult]
      | approvalSettled _ answer =>
        cases answer with
        | ok _ => cases hreported
        | error message => simp [Session.dispatches, ShellAction.leavesExecuting]
      | _ => cases hreported

/-- A turn is faithful if and only if what it brings comes in time. -/
theorem faithful_iff_timely (hshows : s.Shows) (henabled : s.Enabled event) :
    Faithful ⟨s, now, event⟩ ↔ Timely ⟨s, now, event⟩ := by
  constructor
  · intro h
    have hleaves (hon : s.state.mode.isExecuting = true)
        (hevent : (∃ request answer, event = .planSettled request answer) ∨
          ∃ execution, event.reported = some execution) : s.Completes event :=
      h.leaves hon ((left_iff hon).mpr ((leavesExecuting_iff henabled hon).mpr hevent))
    refine ⟨(shown_iff hshows).mp h.shown, fun request answer heq => ?_,
      fun execution hreported hon => ?_⟩
    · obtain rfl : event = .planSettled request answer := heq
      by_contra hon
      obtain ⟨execution, hreported, -⟩ :=
        hleaves ((Bool.not_eq_false _).mp hon) (.inl ⟨request, answer, rfl⟩)
      cases hreported
    · obtain ⟨other, hother, hlast⟩ := hleaves hon (.inr ⟨execution, hreported⟩)
      obtain rfl := Option.some.inj (hother.symm.trans hreported)
      exact hlast
  · intro h
    refine ⟨(shown_iff hshows).mpr h.plan, fun hon hleft => ?_⟩
    rcases (leavesExecuting_iff henabled hon).mp ((left_iff hon).mp hleft) with
      ⟨request, answer, heq⟩ | ⟨execution, hreported⟩
    · exact absurd (hon.symm.trans (h.between request answer heq)) (by decide)
    · exact ⟨execution, hreported, h.report execution hreported hon⟩

/-- The state a turn ends in is one it visits. -/
theorem shows_after {t : Turn} (h : Faithful t) : t.after.Shows := by
  intro plan hplan
  refine h.shown t.after.state ?_ plan hplan
  exact List.mem_of_getLast? List.getLast?_scanl

/-- An execution is entered by an approval of the plan that is shown, and is the last one to be
started. -/
theorem executing_of_entered (hoff : s.state.mode.isExecuting = false)
    (hon : (Turn.mk s now event).after.state.mode.isExecuting = true) :
    event = .approve ∧ ∃ plan, s.state.mode.shownPlan = some plan ∧
      (Turn.mk s now event).after.approvals = s.approvals.make plan.steps := by
  have hgranted : ShellAction.approvalGranted ∈ s.dispatches event :=
    (entered_foldl hon).resolve_left (by rw [hoff]; decide)
  obtain rfl : event = .approve := dueTo_of_mem_dispatches hgranted
  refine ⟨rfl, ?_⟩
  cases hmode : s.state.mode with
  | awaitingApproval plan planError =>
    exact ⟨plan, rfl, by simp [Turn.after, Session.called, hmode]⟩
  | _ => simp [Session.dispatches, hmode] at hgranted

end Turns

/-! ### Runs -/

/-- **When the shell shows the plan of its intent.** In every run, each plan that is shown before
or during an execution answers the intent that is shown with it, and an execution is left only
when it is reported itself, if and only if every turn is in time. -/
theorem faithful_iff {run : List Turn} {s : Session} (h : Run run s) :
    (∀ t ∈ run, Faithful t) ↔ ∀ t ∈ run, Timely t := by
  suffices hall : ((∀ t ∈ run, Faithful t) → s.Shows) ∧
      ((∀ t ∈ run, Faithful t) ↔ ∀ t ∈ run, Timely t) from hall.2
  induction h with
  | start => exact ⟨fun _ _ hplan => (nomatch hplan), by simp⟩
  | @turn run s hrun now event henabled ih =>
    obtain ⟨hshows, hiff⟩ := ih
    constructor
    · intro hfaithful
      exact shows_after (hfaithful _ (List.mem_append_right _ (List.mem_singleton_self _)))
    · rw [List.forall_mem_append, List.forall_mem_append, List.forall_mem_singleton,
        List.forall_mem_singleton, ← hiff]
      exact and_congr_right fun hbefore => faithful_iff_timely (hshows hbefore) henabled

/-- A plan for one intent. -/
def vimPlan : PlanResponse where
  summary := "Install vim"
  explanation := "Layers vim via rpm-ostree."
  approvalRequired := true
  steps := [⟨"InstallPackages", "Layer vim", .high, true, .obj []⟩]
  hostName := "silverblue"
  deployment := "fedora/41"
  toolboxCount := 0
  flatpakCount := 0

/-- The intent has been submitted. -/
def requested : Session := (Turn.mk {} "10:00:00" (.submit "install vim")).after

theorem run_requested : Run [⟨{}, "10:00:00", .submit "install vim"⟩] requested :=
  Run.start.turn "10:00:00" (.submit "install vim") ⟨none, rfl⟩

theorem faithful_iff_requested :
    (∀ t ∈ [Turn.mk {} "10:00:00" (.submit "install vim"),
        ⟨requested, "10:00:09", .planSettled 0 (.ok vimPlan)⟩], Faithful t) ↔
      ∀ t ∈ [Turn.mk {} "10:00:00" (.submit "install vim"),
        ⟨requested, "10:00:09", .planSettled 0 (.ok vimPlan)⟩], Timely t :=
  faithful_iff (run_requested.turn "10:00:09" (.planSettled 0 (.ok vimPlan))
    ⟨by decide, fun _ => List.not_mem_nil⟩)

/-- The operator resets the shell and submits another intent before the first plan comes. -/
theorem not_faithful : ¬ ∀ (run : List Turn) (s : Session), Run run s → ∀ t ∈ run, Faithful t := by
  intro h
  have hrun := ((run_requested.turn "10:00:02" .reset rfl).turn "10:00:05"
    (.submit "free disk space") ⟨none, rfl⟩).turn "10:00:09" (.planSettled 0 (.ok vimPlan))
      ⟨by decide, fun _ => List.not_mem_nil⟩
  have hlast := h _ _ hrun _ (List.mem_append_right _ (List.mem_singleton_self _))
  obtain ⟨request, hmade, hsettled⟩ := hlast.shown _
    (List.mem_cons_of_mem _ (List.mem_cons_of_mem _ List.mem_cons_self)) vimPlan rfl
  obtain rfl : request = 0 := (Prod.mk.inj (List.mem_singleton.mp hsettled)).1
  have hfirst : "install vim" = "free disk space" := Option.some.inj hmade
  exact absurd hfirst (by decide)

end Sysknife.Shell
