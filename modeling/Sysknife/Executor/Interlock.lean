import Sysknife.Dispatcher.Warrants
import Sysknife.Executor.Verdict

/-!
# The executor under the dispatcher

A request has its action executed, and the rollback of it, by the executor; the slots it holds and
the rollback it attempts go by what the executor reports. `Attends` runs the executor beside a
process of the daemon: it begins when the process calls for it, makes its own calls to the operating
system, and gives the process the result it comes to.

* `commands_guarded`: **while a command may run, its slots are taken.** Of two requests that claim
  a slot, at most one has a command that may still be running, except where a rollback was started
  that could not be stopped.
* `spawned_alone`: **what is spawned is the action's own command**, or that of its rollback, and the
  command that was spawned before it is over.
-/

namespace Sysknife.Executor

open Dispatcher

/-! ### What a request does with the executor -/

/-- How far a request has come with its action. -/
inductive Phase
  | before
  | running
  | ended (result : ExecutionResult)
  | rolledBack (result : ExecutionResult)

/-- The call is not about the execution, nor about the slots. -/
def aside : DaemonCall → Bool
  | .executeWithProgress _ | .executionResult | .execute _ | .release _ _ => false
  | _ => true

/-- Progress made by one call and its answer. -/
def Phase.next : Phase → (c : DaemonCall) → c.Answer → Phase
  | _, .executeWithProgress _, _ => .running
  | _, .executionResult, answer => .ended answer.2
  | _, .execute _, answer => .rolledBack answer
  | phase, _, _ => phase

/-- When a request may make a call: an action that may still be running is not rolled back, and its
slots are not released. -/
def Phase.Permits : Phase → DaemonCall → Prop
  | phase, .executeWithProgress _ => phase = .before
  | phase, .executionResult => phase = .running
  | phase, .execute _ => ∃ result, phase = .ended result ∧ mayStillBeRunning result = false
  | phase, .release _ _ => phase ≠ .running ∧
      ∀ result, phase = .ended result → mayStillBeRunning result = false
  | _, _ => True

/-- The automaton of the phases. -/
@[reducible] def phases : Monitor DaemonCall DaemonCall.Answer where
  State := Phase
  next := Phase.next
  allowed := Phase.Permits

section Obeys

variable {α β : Type} {phase : Phase}

theorem Phase.permits_of_aside {op : DaemonCall} (hop : aside op = true) : phase.Permits op := by
  cases op with
  | executeWithProgress | executionResult | execute | release => cases hop
  | _ => trivial

theorem Phase.next_of_aside {op : DaemonCall} (hop : aside op = true) (answer : op.Answer) :
    phase.next op answer = phase := by
  cases op with
  | executeWithProgress | executionResult | execute | release => cases hop
  | _ => rfl

/-- A part of a handler that leaves the execution and the slots aside. -/
abbrev Aside (p : Handler α) : Prop := p.Only fun op => aside op = true

theorem obeys_aside_bind {p : Handler α} {f : α → Handler β} {post : Phase → β → Prop}
    (hp : Aside p) (hf : ∀ a, phases.Obeys post (f a) phase) :
    phases.Obeys post (p >>= f) phase := by
  refine Prog.Only.obeys_bind (M := phases) (I := fun g => g = phase) hp
    (fun g op _ hop => ⟨Phase.permits_of_aside hop, fun answer => ?_⟩) rfl fun g a hg => ?_
  · rw [← ‹g = phase›]
    exact Phase.next_of_aside hop answer
  · rw [hg]
    exact hf a

theorem obeys_of_aside {p : Handler α} {post : Phase → α → Prop} (hp : Aside p)
    (hpost : ∀ a, post phase a) : phases.Obeys post p phase := by
  refine (Prog.Only.obeys (M := phases) (I := fun g => g = phase) hp
    (fun g op hg hop => ⟨Phase.permits_of_aside hop, fun answer => ?_⟩) rfl).mono fun g a hg => ?_
  · rw [← hg]
    exact Phase.next_of_aside hop answer
  · rw [hg]
    exact hpost a

theorem aside_sendResponse (response : DaemonResponse) : Aside (sendResponse response) :=
  Prog.only_perform rfl

theorem aside_sendBestEffort (response : DaemonResponse) : Aside (sendBestEffort response) :=
  (aside_sendResponse response).bind fun _ => trivial

theorem aside_sendLines (jobId : String) (lines : List String) : Aside (sendLines jobId lines) := by
  induction lines with
  | nil => trivial
  | cons line rest ih => exact (aside_sendBestEffort _).bind fun _ => ih

theorem aside_callerOwnsTransaction (caller : CallerAttribution) (t : String) :
    Aside (callerOwnsTransaction caller t) := by
  unfold callerOwnsTransaction
  split_ifs
  · trivial
  · refine Prog.only_perform_bind rfl fun answer => ?_
    rcases answer with error | _ | row
    · trivial
    · trivial
    · simp only
      cases row.callerPrincipal with
      | none => trivial
      | some owner => trivial

theorem aside_updateTerminalStatus (t : String) (target : JobState) :
    Aside (updateTerminalStatus t target) := by
  have hattempt {giveUp : Store.StoreError → Handler (Except Store.StoreError Unit)}
      (h : ∀ e, Aside (giveUp e)) : Aside (attemptTerminalStatus t target giveUp) := by
    refine Prog.only_perform_bind rfl fun answer => ?_
    rcases answer with error | _
    · refine Prog.only_perform_bind rfl fun answer => ?_
      rcases answer with error' | _ | record
      · exact h error
      · exact h error
      · simp only
        split_ifs
        · trivial
        · exact h error
    · trivial
  unfold updateTerminalStatus
  generalize terminalStatusRetryAttempts - 1 = retries
  induction retries with
  | zero => exact hattempt fun _ => trivial
  | succ retries ih => exact hattempt fun _ => ih

theorem aside_rechecks (d : Daemon) (r : ExecuteRequest) :
    Aside (recheckAutoremove r) ∧ Aside (recheckDeployment d r) := by
  constructor
  · unfold recheckAutoremove
    split_ifs
    · refine Prog.only_perform_bind rfl fun answer => ?_
      cases approvedPreview answer with
      | error refusal => trivial
      | ok preview => exact Prog.only_perform_bind rfl fun _ => trivial
    · trivial
  · unfold recheckDeployment
    split_ifs
    · refine Prog.only_perform_bind rfl fun answer => ?_
      cases approvedPreview answer with
      | error refusal => trivial
      | ok preview =>
        simp only
        cases (r.params.get "index").bind Value.asU64 with
        | none => trivial
        | some index => exact Prog.only_perform_bind rfl fun _ => trivial
    · trivial

/-- An action that ended is rolled back only if it is known to be over. -/
theorem obeys_attemptRollbackIfNeeded_phases {jobId actionName summary : String} {spec : ActionSpec}
    {status : JobState} {result : ExecutionResult}
    {post : Phase → JobState × String × Option String → Prop}
    (h : ∀ phase o, (phase = .ended result ∨
      mayStillBeRunning result = false ∧ ∃ rollback, phase = .rolledBack rollback) →
        post phase o) :
    phases.Obeys post (attemptRollbackIfNeeded jobId actionName spec status summary
      (mayStillBeRunning result)) (.ended result) := by
  unfold attemptRollbackIfNeeded
  split_ifs with hneeded hrunning
  · exact h _ _ (.inl rfl)
  · exact obeys_aside_bind (aside_sendBestEffort _) fun _ => h _ _ (.inl rfl)
  · have hover : mayStillBeRunning result = false := by simpa using hrunning
    split
    · exact h _ _ (.inl rfl)
    · refine obeys_aside_bind (aside_sendBestEffort _) fun _ => ?_
      refine Monitor.obeys_perform_bind ⟨result, rfl, hover⟩ fun rollback => ?_
      have hafter (o : JobState × String × Option String) : post (.rolledBack rollback) o :=
        h _ o (.inr ⟨hover, rollback, rfl⟩)
      rcases rollback with error | out
      · exact obeys_aside_bind (aside_sendBestEffort _) fun _ => hafter _
      · simp only
        split_ifs
        · exact obeys_aside_bind (aside_sendBestEffort _) fun _ => hafter _
        · exact obeys_aside_bind (aside_sendBestEffort _) fun _ => hafter _

variable (d : Daemon) (r : ExecuteRequest) (spec : ActionSpec)

theorem obeys_executeFinish_phases (jobId : String) (result : ExecutionResult) :
    phases.Obeys (fun _ _ => True) (executeFinish d r spec jobId result) (.ended result) := by
  refine obeys_aside_bind (aside_sendBestEffort _) fun _ => ?_
  refine Monitor.obeys_bind (obeys_attemptRollbackIfNeeded_phases fun phase o hphase => ?_)
  have hrest (warnings : Except Store.StoreError Unit → List String) :
      Aside (updateTerminalStatus r.transactionId o.1 >>= fun written =>
        sendResponse (.jobCompleted jobId ⟨jobStateStr o.1, o.2.1, warnings written, jobId,
          o.1 == .needsReboot, o.2.2, r.transactionId⟩)) :=
    (aside_updateTerminalStatus _ _).bind fun _ => aside_sendResponse _
  cases hrunning : mayStillBeRunning result with
  | true => exact obeys_of_aside (hrest _) fun _ => trivial
  | false =>
    refine Monitor.obeys_perform_bind ⟨?_, fun result' hresult' => ?_⟩ fun _ =>
      obeys_of_aside (hrest _) fun _ => trivial
    · rintro rfl
      rcases hphase with hphase | ⟨-, rollback, hphase⟩
      · cases hphase
      · cases hphase
    · rcases hphase with rfl | ⟨-, rollback, rfl⟩
      · rwa [← Phase.ended.inj hresult']
      · cases hresult'

theorem obeys_executeRun_phases (jobId : String) :
    phases.Obeys (fun _ _ => True) (executeRun d r spec jobId) .before := by
  refine obeys_aside_bind (aside_sendBestEffort _) fun _ => ?_
  refine obeys_aside_bind (aside_sendBestEffort _) fun _ => ?_
  refine Monitor.obeys_perform_bind rfl fun _ => ?_
  refine Monitor.obeys_perform_bind rfl fun answer => ?_
  obtain ⟨lines, result⟩ := answer
  exact obeys_aside_bind (aside_sendLines _ _) fun _ => obeys_executeFinish_phases d r spec jobId _

/-- A request that gives up before its action started gives its slots back. -/
theorem obeys_releaseExclusiveSlots_bind {f : Unit → Handler α} (hf : Aside (f ())) :
    phases.Obeys (fun _ _ => True) (releaseExclusiveSlots d r spec >>= f) .before := by
  refine Monitor.obeys_perform_bind ⟨?_, fun result hresult => ?_⟩ fun _ =>
    obeys_of_aside hf fun _ => trivial
  · rintro ⟨⟩
  · cases hresult

theorem obeys_executeStart_phases :
    phases.Obeys (fun _ _ => True) (executeStart d r spec) .before := by
  refine obeys_aside_bind (Prog.only_perform rfl) fun jobId => ?_
  refine obeys_aside_bind (aside_sendResponse _) fun o => ?_
  rcases o with error | ⟨⟩
  · exact obeys_releaseExclusiveSlots_bind d r spec
      ((aside_updateTerminalStatus _ _).bind fun _ => trivial)
  · exact obeys_executeRun_phases d r spec jobId

theorem obeys_executeClaimed_phases :
    phases.Obeys (fun _ _ => True) (executeClaimed d r spec) .before := by
  refine obeys_aside_bind (aside_rechecks d r).1 fun o => ?_
  rcases o with refusal | ⟨⟩
  · exact obeys_releaseExclusiveSlots_bind d r spec (aside_sendResponse _)
  · refine obeys_aside_bind (aside_rechecks d r).2 fun o => ?_
    rcases o with refusal | ⟨⟩
    · exact obeys_releaseExclusiveSlots_bind d r spec (aside_sendResponse _)
    · exact obeys_executeStart_phases d r spec

theorem obeys_executeAdmitted_phases :
    phases.Obeys (fun _ _ => True) (executeAdmitted d r spec) .before := by
  refine obeys_aside_bind (Prog.only_perform rfl) fun answer => ?_
  rcases answer with error | claimed
  · exact obeys_releaseExclusiveSlots_bind d r spec (aside_sendResponse _)
  · cases claimed with
    | false => exact obeys_releaseExclusiveSlots_bind d r spec (aside_sendResponse _)
    | true => exact obeys_executeClaimed_phases d r spec

theorem obeys_executeAuthorized_phases :
    phases.Obeys (fun _ _ => True) (executeAuthorized d r spec) .before := by
  have hsend (response : DaemonResponse) :
      phases.Obeys (fun _ _ => True) (sendResponse response) .before :=
    obeys_of_aside (aside_sendResponse response) fun _ => trivial
  unfold executeAuthorized
  split_ifs
  · exact hsend _
  split
  · exact hsend _
  refine obeys_aside_bind (Prog.only_perform rfl) fun answer => ?_
  rcases answer with error | _ | priorTx
  · exact hsend _
  · exact hsend _
  · simp only
    split_ifs
    · exact hsend _
    · unfold executeGate
      split_ifs
      · refine obeys_aside_bind (Prog.only_perform rfl) fun answer => ?_
        rcases answer with _ | ⟨blockingResource, runningHash⟩
        · exact obeys_executeAdmitted_phases d r spec
        · exact hsend _
      · exact obeys_executeAdmitted_phases d r spec

/-- **A request keeps to the phases.** -/
theorem obeys_handle_phases :
    phases.Obeys (fun _ _ => True) (d.handle (.execute r)) .before := by
  have hexecute : phases.Obeys (fun _ _ => True) (handleExecute d r) .before := by
    unfold handleExecute
    split
    · exact obeys_of_aside (aside_sendResponse _) fun _ => trivial
    · rename_i spec hspec
      refine obeys_aside_bind (aside_callerOwnsTransaction _ _) fun ownership => ?_
      cases ownership with
      | notOwned => exact obeys_of_aside (aside_sendResponse _) fun _ => trivial
      | cannotEstablish message => exact obeys_of_aside (aside_sendResponse _) fun _ => trivial
      | owned => exact obeys_executeAuthorized_phases d r spec
      | noSuchTransaction => exact obeys_executeAuthorized_phases d r spec
  exact Monitor.obeys_bind (hexecute.mono fun _ _ _ => trivial)

end Obeys

/-! ### The phase and the slots -/

/-- The phase a request is in after these calls. -/
abbrev phaseOf (calls : List (Call DaemonCall DaemonCall.Answer)) : Phase :=
  phases.after .before calls

/-- What a phase says about the approval and the slots. -/
structure Tracked (phase : Phase) (g : Progress) : Prop where
  running : phase = .running → g.claimed = true ∧ g.released = false
  ended : ∀ result, phase = .ended result →
    g.claimed = true ∧ (mayStillBeRunning result = true → g.released = false)

section Tracked

variable {d : Daemon} {r : ExecuteRequest} {phase : Phase} {g : Progress}

theorem Tracked.next {op : DaemonCall} (h : Tracked phase g) (hphase : phase.Permits op)
    (hallowed : Allowed d (.execute r) g op) (answer : op.Answer) :
    Tracked (phase.next op answer) (g.next op answer) := by
  obtain ⟨-, hclaimed, hreleased, -⟩ := g.next_flags op answer
  have hquiet (hnext : phase.next op answer = phase) (hreleases : op.releases = false) :
      Tracked (phase.next op answer) (g.next op answer) := by
    rw [hreleases, Bool.or_false] at hreleased
    refine ⟨fun hrunning => ?_, fun result hended => ?_⟩
    · obtain ⟨hspent, hheld⟩ := h.running (hnext ▸ hrunning)
      exact ⟨by rw [hclaimed, hspent, Bool.true_or], by rw [hreleased, hheld]⟩
    · obtain ⟨hspent, hheld⟩ := h.ended result (hnext ▸ hended)
      exact ⟨by rw [hclaimed, hspent, Bool.true_or], fun hrunning => by
        rw [hreleased, hheld hrunning]⟩
  cases op with
  | executeWithProgress spec =>
    obtain ⟨r', -, -, -, hspent, -, hheld⟩ := hallowed
    refine ⟨fun _ => ⟨?_, ?_⟩, fun result hended => (by cases hended)⟩
    · rw [hclaimed, hspent, Bool.true_or]
    · rw [hreleased, hheld]
      rfl
  | executionResult =>
    obtain ⟨hspent, hheld⟩ := h.running hphase
    refine ⟨fun hrunning => (by cases hrunning), fun result _ => ⟨?_, fun _ => ?_⟩⟩
    · rw [hclaimed, hspent, Bool.true_or]
    · rw [hreleased, hheld]
      rfl
  | execute spec =>
    exact ⟨fun hrunning => (by cases hrunning), fun result hended => (by cases hended)⟩
  | release claims requestHash =>
    refine ⟨fun hrunning => absurd hrunning hphase.1, fun result hended => ⟨?_, fun hrunning => ?_⟩⟩
    · rw [hclaimed, (h.ended result hended).1, Bool.true_or]
    · rw [hphase.2 result hended] at hrunning
      cases hrunning
  | _ => exact hquiet rfl rfl

/-- Every call of a request was permitted in its phase, and allowed by its conduct. -/
theorem permits_of_traces {calls : List (Call DaemonCall DaemonCall.Answer)}
    {call : Call DaemonCall DaemonCall.Answer}
    (h : (d.handle (.execute r)).Traces (calls ++ [call])) :
    (phaseOf calls).Permits call.1 ∧
      Allowed d (.execute r) ((conduct d).after (.execute r, {}) calls).2 call.1 := by
  refine ⟨h.allowed (obeys_handle_phases d r) rfl, ?_⟩
  have hallowed := h.allowed (conducts d (.execute r)) rfl
  simp only [after_fst] at hallowed
  exact hallowed

theorem tracked_of_traces {calls : List (Call DaemonCall DaemonCall.Answer)}
    (h : (d.handle (.execute r)).Traces calls) :
    Tracked (phaseOf calls) ((conduct d).after (.execute r, {}) calls).2 := by
  induction calls using List.reverseRecOn with
  | nil =>
    exact ⟨fun hrunning => (by cases hrunning), fun result hended => (by cases hended)⟩
  | append_singleton calls call ih =>
    obtain ⟨hpermits, hallowed⟩ := permits_of_traces h
    simp only [phaseOf, Monitor.after_concat]
    exact (ih h.of_append).next hpermits hallowed call.2

end Tracked

/-! ### The executor beside a request -/

/-- What the executor is doing for a request. -/
inductive Stage
  | idle
  | executing (spec : ActionSpec) (rest : OsProg ExecutionResult)
  | rollingBack (spec : ActionSpec) (rest : OsProg ExecutionResult)

/-- The executor beside a request that has made these calls: the stage it is at, in this world. Its
deadline is `timeoutSecs`. -/
inductive Attends (timeoutSecs : ℕ) :
    List (Call DaemonCall DaemonCall.Answer) → Stage → World → Prop
  | initial : Attends timeoutSecs [] .idle .initial
  /-- Time passes. -/
  | passes {calls w} (choice : OsChoice) : Attends timeoutSecs calls .idle w →
      Attends timeoutSecs calls .idle (w.evolve choice)
  /-- The request makes another call. -/
  | other {calls w} {op : DaemonCall} (answer : op.Answer)
      (hop : aside op = true ∨ op.releases = true) : Attends timeoutSecs calls .idle w →
      Attends timeoutSecs (calls ++ [⟨op, answer⟩]) .idle w
  | starts {calls w} (spec : ActionSpec) (lines : ℕ) : Attends timeoutSecs calls .idle w →
      Attends timeoutSecs (calls ++ [⟨.executeWithProgress spec, ()⟩])
        (.executing spec (executeWithProgress timeoutSecs lines spec)) w
  | executes {calls w spec op k} (choice : OsChoice) :
      Attends timeoutSecs calls (.executing spec (.call op k)) w →
      Attends timeoutSecs calls (.executing spec (k (w.serve choice op).1)) (w.serve choice op).2
  | ends {calls w spec result} (lines : List String) :
      Attends timeoutSecs calls (.executing spec (.pure result)) w →
      Attends timeoutSecs (calls ++ [⟨.executionResult, (lines, result)⟩]) .idle w
  | startsRollback {calls w} (spec : ActionSpec) : Attends timeoutSecs calls .idle w →
      Attends timeoutSecs calls (.rollingBack spec (executeSpec timeoutSecs spec)) w
  | rollsBack {calls w spec op k} (choice : OsChoice) :
      Attends timeoutSecs calls (.rollingBack spec (.call op k)) w →
      Attends timeoutSecs calls (.rollingBack spec (k (w.serve choice op).1)) (w.serve choice op).2
  | endsRollback {calls w spec result} :
      Attends timeoutSecs calls (.rollingBack spec (.pure result)) w →
      Attends timeoutSecs (calls ++ [⟨.execute spec, result⟩]) .idle w

/-- What a stage says about the command, in the phase the request is in. -/
def Stage.Sound (timeoutSecs : ℕ) (phase : Phase) (w : World) : Stage → Prop
  | .idle => phase ≠ .running ∧ (phase = .before → w.Over) ∧
      ∀ result, phase = .ended result ∨ phase = .rolledBack result →
        mayStillBeRunning result = false → w.Over
  | .executing spec rest => phase = .running ∧ Guards spec (Verdict timeoutSecs) rest w
  | .rollingBack spec rest =>
    phase.Permits (.execute spec) → Guards spec (Verdict timeoutSecs) rest w

section Attends

variable {d : Daemon} {r : ExecuteRequest} {timeoutSecs : ℕ} {stage : Stage} {w : World}
  {calls : List (Call DaemonCall DaemonCall.Answer)}

theorem Attends.sound (h : Attends timeoutSecs calls stage w)
    (htraces : (d.handle (.execute r)).Traces calls) :
    stage.Sound timeoutSecs (phaseOf calls) w := by
  induction h with
  | initial =>
    refine ⟨fun hrunning => (by cases hrunning), fun _ => over_initial, fun result hresult => ?_⟩
    rcases hresult with hresult | hresult
    · cases hresult
    · cases hresult
  | passes choice _ ih =>
    obtain ⟨hrunning, hbefore, hafter⟩ := ih htraces
    exact ⟨hrunning, fun h => over_evolve (hbefore h),
      fun result h hover => over_evolve (hafter result h hover)⟩
  | @other calls w op answer hop _ ih =>
    have hphase : phaseOf (calls ++ [⟨op, answer⟩]) = phaseOf calls := by
      rw [phaseOf, Monitor.after_concat]
      rcases hop with haside | hreleases
      · exact Phase.next_of_aside haside answer
      · obtain ⟨claims, requestHash, rfl⟩ := releases_eq_true hreleases
        rfl
    rw [hphase]
    exact ih htraces.of_append
  | starts spec lines _ ih =>
    have hover := (ih htraces.of_append).2.1 (permits_of_traces htraces).1
    refine ⟨by rw [phaseOf, Monitor.after_concat]; rfl, ?_⟩
    exact (Executes.withProgress lines).guarded hover
  | executes choice _ ih => exact ⟨(ih htraces).1, (ih htraces).2.2 choice⟩
  | @ends calls w spec result lines _ ih =>
    have hverdict : Verdict timeoutSecs w result := (ih htraces.of_append).2
    have hphase : phaseOf (calls ++ [⟨.executionResult, (lines, result)⟩]) = .ended result := by
      rw [phaseOf, Monitor.after_concat]
      rfl
    rw [hphase]
    refine ⟨fun h => (by cases h), fun h => (by cases h), fun result' h hover => ?_⟩
    rcases h with h | h
    · obtain rfl := Phase.ended.inj h
      exact hverdict.isOver hover
    · cases h
  | startsRollback spec _ ih =>
    rintro ⟨result, hphase, hover⟩
    exact Executes.plain.guarded ((ih htraces).2.2 result (.inl hphase) hover)
  | rollsBack choice _ ih => exact fun hpermits => (ih htraces hpermits).2 choice
  | @endsRollback calls w spec result _ ih =>
    have hverdict : Verdict timeoutSecs w result :=
      ih htraces.of_append (permits_of_traces htraces).1
    have hphase : phaseOf (calls ++ [⟨.execute spec, result⟩]) = .rolledBack result := by
      rw [phaseOf, Monitor.after_concat]
      rfl
    rw [hphase]
    refine ⟨fun h => (by cases h), fun h => (by cases h), fun result' h hover => ?_⟩
    rcases h with h | h
    · cases h
    · obtain rfl := Phase.rolledBack.inj h
      exact hverdict.isOver hover

/-- An execution that is under way was begun by the last call. -/
theorem Attends.of_executing {spec : ActionSpec} {rest : OsProg ExecutionResult}
    (h : Attends timeoutSecs calls (.executing spec rest) w) :
    ∃ before, calls = before ++ [⟨.executeWithProgress spec, ()⟩] := by
  generalize hstage : Stage.executing spec rest = stage at h
  induction h generalizing rest with
  | starts spec' lines _ _ =>
    obtain ⟨rfl, -⟩ := Stage.executing.inj hstage
    exact ⟨_, rfl⟩
  | executes choice _ ih =>
    obtain ⟨rfl, -⟩ := Stage.executing.inj hstage
    exact ih rfl
  | _ => cases hstage

/-- A rollback that has ended was made. -/
theorem mem_of_rolledBack {result : ExecutionResult} (h : phaseOf calls = .rolledBack result) :
    ∃ spec, (⟨.execute spec, result⟩ : Call DaemonCall DaemonCall.Answer) ∈ calls := by
  induction calls using List.reverseRecOn with
  | nil => cases h
  | append_singleton calls call ih =>
    obtain ⟨op, answer⟩ := call
    rw [phaseOf, Monitor.after_concat] at h
    cases op with
    | executeWithProgress spec => cases h
    | executionResult => cases h
    | execute spec =>
      obtain rfl := Phase.rolledBack.inj h
      exact ⟨spec, List.mem_append_right _ (List.mem_singleton.mpr rfl)⟩
    | _ =>
      obtain ⟨spec, hmem⟩ := ih h
      exact ⟨spec, List.mem_append_left _ hmem⟩

end Attends

/-! ### The executor beside the daemon -/

/-- The executor is at work, or the command it spawned last is not over. -/
def Stage.Busy (stage : Stage) (w : World) : Prop := stage ≠ .idle ∨ ¬ w.Over

/-- A rollback is under way only while the request waits for it. -/
def Stage.Fits (program : Handler Unit) : Stage → Prop
  | .rollingBack spec _ => ∃ k, program = .call (.execute spec) k
  | _ => True

section Processes

variable {d : Daemon} {p : d.system.Process} {r : ExecuteRequest} {spec : ActionSpec}
  {timeoutSecs : ℕ} {stage : Stage} {w : World}

/-- The executor beside a process. -/
structure Beside (timeoutSecs : ℕ) (p : d.system.Process) (stage : Stage) (w : World) : Prop where
  attends : Attends timeoutSecs p.history stage w
  fits : stage.Fits p.program

/-- A rollback ended that may still be running. -/
def UnstoppedRollback (p : d.system.Process) : Prop :=
  ∃ rollback result, (⟨.execute rollback, result⟩ : Call DaemonCall DaemonCall.Answer) ∈ p.history ∧
    mayStillBeRunning result = true

theorem traces_of_run {events : List d.system.Event} {i : ℕ}
    (hp : (d.system.run events).procs[i]? = some p) : (d.handle p.request).Traces p.history := by
  have htraces := System.traces_run events hp [] (.start _)
  rwa [List.append_nil] at htraces

/-- A request with a command that may be running is in flight, unless that is the rollback. -/
theorem executing_of_busy (events : List d.system.Event) {i : ℕ}
    (hp : (d.system.run events).procs[i]? = some p) (hexecutes : Dispatcher.Executes p r spec)
    (hbeside : Beside timeoutSecs p stage w) (hbusy : stage.Busy w) :
    Executing (d.system.run events) i r spec ∨ UnstoppedRollback p := by
  have htraces := traces_of_run hp
  rw [hexecutes.1] at htraces
  have htracked : Tracked (phaseOf p.history) (progress d p) := by
    have htracked := tracked_of_traces htraces
    rwa [← hexecutes.1, after_eq] at htracked
  have hinFlight (hclaimed : (progress d p).claimed = true)
      (hheld : (progress d p).released = false) :
      Executing (d.system.run events) i r spec ∨ UnstoppedRollback p :=
    .inl ⟨p, hp, hexecutes, .inr hclaimed, hheld⟩
  have hsound := hbeside.attends.sound htraces
  cases stage with
  | executing spec' rest =>
    obtain ⟨hclaimed, hheld⟩ := htracked.running hsound.1
    exact hinFlight hclaimed hheld
  | rollingBack spec' rest =>
    obtain ⟨k, hprog⟩ := hbeside.fits
    obtain ⟨-, -, -, -, -, -, -, hclaimed, -, -, -, -, -, hheld⟩ := allowed_of_next events hp hprog
    exact hinFlight hclaimed hheld
  | idle =>
    obtain ⟨hrunning, hbefore, hafter⟩ := hsound
    have hnotOver : ¬ w.Over := by
      rcases hbusy with hbusy | hbusy
      · exact absurd rfl hbusy
      · exact hbusy
    have hmayRun (result : ExecutionResult)
        (hresult : phaseOf p.history = .ended result ∨ phaseOf p.history = .rolledBack result) :
        mayStillBeRunning result = true := by
      by_contra hover
      exact hnotOver (hafter result hresult (by simpa using hover))
    cases hphase : phaseOf p.history with
    | before => exact absurd (hbefore hphase) hnotOver
    | running => exact absurd hphase hrunning
    | ended result =>
      obtain ⟨hclaimed, hheld⟩ := htracked.ended result hphase
      exact hinFlight hclaimed (hheld (hmayRun result (.inl hphase)))
    | rolledBack result =>
      obtain ⟨rollback, hmem⟩ := mem_of_rolledBack hphase
      exact .inr ⟨rollback, result, hmem, hmayRun result (.inr hphase)⟩

/-- **While a command may run, its slots are taken.** In every run, whatever the commands do: while
the executor is at work for a request, or the command it spawned may not be over, each slot of the
action is occupied under the hash of the request, and no other request that claims the slot is in
that position; a request whose automatic rollback could not be stopped is exempt. -/
theorem commands_guarded (events : List d.system.Event) {i : ℕ}
    (hp : (d.system.run events).procs[i]? = some p) (hexecutes : Dispatcher.Executes p r spec)
    (hbeside : Beside timeoutSecs p stage w) (hbusy : stage.Busy w)
    (hstopped : ¬ UnstoppedRollback p) (res : ExclusiveResource)
    (hres : res ∈ toClaim d r.actionName spec) :
    (d.system.run events).world.runningExclusive res =
      some (computeRequestHash d r.actionName r.params) ∧
    ∀ (j : ℕ) (q : d.system.Process) s spec' stage' w', j ≠ i →
      (d.system.run events).procs[j]? = some q → Dispatcher.Executes q s spec' →
      res ∈ toClaim d s.actionName spec' → Beside timeoutSecs q stage' w' → stage'.Busy w' →
      UnstoppedRollback q := by
  have hslots := slotsHeld_run events
  have hsound := allSound_run events
  have hself := holding_of_executing hsound
    ((executing_of_busy events hp hexecutes hbeside hbusy).resolve_right hstopped) hres
  refine ⟨hslots.held i res _ hself, ?_⟩
  intro j q s spec' stage' w' hne hq hexecutes' hres' hbeside' hbusy'
  refine (executing_of_busy events hq hexecutes' hbeside' hbusy').resolve_left fun hexecuting => ?_
  exact hne (hslots.unique j i res _ _ (holding_of_executing hsound hexecuting hres') hself)

/-- **What is spawned is the action's own command.** In every run, whatever the commands do: when
the executor is about to spawn a command for a process, the process serves a request to execute an
action, whose approval was spent; the command is that of the action, or of its rollback after the
action failed and is known to be over; and the command that was spawned before is over. -/
theorem spawned_alone (events : List d.system.Event) {i : ℕ}
    (hp : (d.system.run events).procs[i]? = some p) (hbeside : Beside timeoutSecs p stage w)
    {command : String} {args : List String} {k : Except String Unit → OsProg ExecutionResult}
    (hspawn : stage = .executing spec (.call (.spawn command args) k) ∨
      stage = .rollingBack spec (.call (.spawn command args) k)) :
    w.Over ∧ spec.mechanism = .command command args ∧ (progress d p).claimed = true ∧
      ∃ r, p.request = .execute r ∧ Endpoint.ExecutedBy d r p.history spec := by
  have htraces := traces_of_run hp
  rcases hspawn with rfl | rfl
  · obtain ⟨before, hcalls⟩ := hbeside.attends.of_executing
    have hallowed := System.history_allowed (conduct d) (fun req => (req, {})) (conducts d) events
      hp hcalls
    obtain ⟨r, hreq, hchecked, -, hclaimed, -⟩ := hallowed
    rw [after_fst] at hreq
    rw [hreq] at htraces
    obtain ⟨-, hover, hmechanism⟩ := (hbeside.attends.sound htraces).imp_right And.left
    refine ⟨hover, hmechanism, ?_, r, hreq, .inl hchecked.spec_eq⟩
    refine (allSound_run events i p hp).started ?_
    rw [progress_started, hcalls, List.any_append]
    simp [DaemonCall.starts]
  · obtain ⟨k', hprog⟩ := hbeside.fits
    obtain ⟨r, failedSpec, result, hreq, hspec, havailable, hrollback, hclaimed, -, hresult,
      hfailed, hstopped, -⟩ := allowed_of_next events hp hprog
    rw [hreq] at htraces
    -- the call that is about to be made is permitted in its phase
    have hnext : (d.handle (.execute r)).Traces
        (p.history ++ [⟨.execute spec, .ok ⟨"", "", 0⟩⟩]) := by
      rw [← hreq]
      exact System.traces_run events hp _ (.step hprog (.start _))
    obtain ⟨hover, hmechanism⟩ := (hbeside.attends.sound htraces (permits_of_traces hnext).1).1
    obtain ⟨lines, hmem⟩ := mem_history_of_result hresult
    exact ⟨hover, hmechanism, hclaimed, r, hreq,
      .inr ⟨failedSpec, lines, result, hspec, havailable, hrollback, hmem, hfailed, hstopped⟩⟩

end Processes

/-! ### An upgrade that outlives its deadline, and one that fails -/

section Sample

variable {timeoutSecs : ℕ} {w w' : World} {calls more : List (Call DaemonCall DaemonCall.Answer)}
  {spec : ActionSpec} {result : ExecutionResult} {rest rest' : OsProg ExecutionResult}

theorem Attends.others (h : Attends timeoutSecs calls .idle w)
    (hmore : (more.all fun call => aside call.1) = true) :
    Attends timeoutSecs (calls ++ more) .idle w := by
  induction more using List.reverseRecOn with
  | nil => rwa [List.append_nil]
  | append_singleton more call ih =>
    rw [List.all_append, Bool.and_eq_true, List.all_cons, List.all_nil, Bool.and_true] at hmore
    rw [← List.append_assoc]
    exact .other call.2 (.inl hmore.2) (ih hmore.1)

theorem Attends.leads (h : Attends timeoutSecs calls (.executing spec rest) w)
    (hrun : Prog.Leads World.serve rest w rest' w') :
    Attends timeoutSecs calls (.executing spec rest') w' := by
  induction hrun with
  | refl rest w => exact h
  | call choice _ ih => exact ih (h.executes choice)

/-- The calls execute the action once, with this result, and do not release anything. -/
def executesOnce (spec : ActionSpec) (result : ExecutionResult) :
    List (Call DaemonCall DaemonCall.Answer) → Bool
  | ⟨.executeWithProgress spec', _⟩ :: ⟨.executionResult, answer⟩ :: rest =>
    decide (spec' = spec) && decide (answer.2 = result) && rest.all fun call => aside call.1
  | call :: rest => aside call.1 && executesOnce spec result rest
  | [] => false

/-- The executor beside a request that executes its action once. -/
theorem Attends.once (h : Attends timeoutSecs calls .idle w) {lines : ℕ}
    (hrun : Prog.Leads World.serve (executeWithProgress timeoutSecs lines spec) w (.pure result) w')
    (hmore : executesOnce spec result more = true) :
    Attends timeoutSecs (calls ++ more) .idle w' := by
  induction more using executesOnce.induct generalizing calls with
  | case1 spec' _ answer rest =>
    rw [executesOnce, Bool.and_eq_true, Bool.and_eq_true, decide_eq_true_eq, decide_eq_true_eq]
      at hmore
    obtain ⟨⟨rfl, rfl⟩, hrest⟩ := hmore
    have hended := ((h.starts spec' lines).leads hrun).ends answer.1
    rw [List.append_assoc] at hended
    have hothers := hended.others hrest
    rwa [List.append_assoc] at hothers
  | case2 call rest hne ih =>
    rw [executesOnce, Bool.and_eq_true] at hmore
    · have hrest := ih (h.other call.2 (.inl hmore.1)) hmore.2
      rwa [List.append_assoc] at hrest
    · exact hne
  | case3 => cases hmore

end Sample

/-- The processes of the upgrade stay, out of the daemon's reach. -/
def outlivesDeadline : List OsChoice := List.replicate 20 sampleOsChoice

/-- The upgrade exits with an error. -/
def exitsWithError : List OsChoice :=
  List.replicate 20 { sampleOsChoice with
    line := .eof
    waited := .exited (some 1) }

def sampleUpdateSystem : ActionSpec :=
  ⟨"UpdateSystem", .command "sudo" ["rpm-ostree", "upgrade"], .high, true, true⟩

/-- An upgrade whose execution comes to this result, up to some call. -/
def upgrade (result : ExecutionResult) (n : ℕ) : List atomicHost.system.Event :=
  prepared 0 "tx-1" "UpdateSystem" (.obj []) ++ acts 2 n { sampleChoice with result := result }

/-- The process of the upgrade, with the executor beside it. -/
theorem exists_beside_upgrade (choices : List OsChoice) (result : ExecutionResult) (n : ℕ)
    (hrun : (Prog.drive World.serve choices (executeWithProgress 7200 1 sampleUpdateSystem)
      .initial).1 = .pure result)
    (hhistory : ((atomicHost.system.run (upgrade result n)).procs[2]?.map fun p =>
      executesOnce sampleUpdateSystem result p.history) = some true) :
    ∃ p, (atomicHost.system.run (upgrade result n)).procs[2]? = some p ∧
      Attends 7200 p.history .idle (Prog.drive World.serve choices
        (executeWithProgress 7200 1 sampleUpdateSystem) .initial).2 := by
  obtain ⟨p, hp, hcalls⟩ := Option.map_eq_some_iff.mp hhistory
  have hleads : Prog.Leads World.serve _ _ _ _ :=
    Prog.leads_drive choices (executeWithProgress 7200 1 sampleUpdateSystem) .initial
  rw [hrun] at hleads
  exact ⟨p, hp, (Attends.initial).once hleads hcalls⟩

/-- The rollback of the upgrade. -/
def sampleRollback : ActionSpec :=
  ⟨"RollbackDeployment", .command "rpm-ostree" ["rollback"], .high, true, false⟩

/-- What a process waits for a rollback of. -/
def nextRollback (program : Handler Unit) : Option ActionSpec :=
  match program with
  | .call (.execute spec) _ => some spec
  | _ => none

theorem exists_of_nextRollback {program : Handler Unit} {spec : ActionSpec}
    (h : nextRollback program = some spec) : ∃ k, program = .call (.execute spec) k := by
  unfold nextRollback at h
  split at h
  · obtain rfl := Option.some.inj h
    exact ⟨_, rfl⟩
  · cases h

/-- An upgrade that could not be stopped; its handler has returned. -/
def unstoppedUpgrade : List atomicHost.system.Event :=
  upgrade (.error (.actionNotStopped "sudo" 4242 7200)) 14

/-- An upgrade that failed, up to its rollback. -/
def failedUpgrade : List atomicHost.system.Event := upgrade (.ok ⟨"", "", 1⟩) 12

/-- The slot of the upgrade that could not be stopped stays taken. -/
theorem commands_guarded_unstoppedUpgrade : ∃ p w,
    (atomicHost.system.run unstoppedUpgrade).procs[2]? = some p ∧ Beside 7200 p .idle w ∧
    ¬ w.Over ∧
    (atomicHost.system.run unstoppedUpgrade).world.runningExclusive .system =
      some (computeRequestHash atomicHost "UpdateSystem" (.obj [])) ∧
    ∀ (j : ℕ) (q : atomicHost.system.Process) s spec' stage' w', j ≠ 2 →
      (atomicHost.system.run unstoppedUpgrade).procs[j]? = some q →
      Dispatcher.Executes q s spec' →
      ExclusiveResource.system ∈ toClaim atomicHost s.actionName spec' →
      Beside 7200 q stage' w' → stage'.Busy w' → UnstoppedRollback q := by
  obtain ⟨p, hp, hattends⟩ := exists_beside_upgrade outlivesDeadline
    (.error (.actionNotStopped "sudo" 4242 7200)) 14 rfl (by decide +kernel)
  have hrequest :
      p.request = .execute (sampleExecute atomicHost "tx-1" "UpdateSystem" (.obj [])) := by
    have harrival : (System.arrivals unstoppedUpgrade)[2]? =
        some (.execute (sampleExecute atomicHost "tx-1" "UpdateSystem" (.obj []))) := rfl
    rw [← System.requests_run, List.getElem?_map] at harrival
    obtain ⟨q, hq, hrequest⟩ := Option.map_eq_some_iff.mp harrival
    rwa [Option.some.inj (hp.symm.trans hq)]
  have hstopped : ¬ UnstoppedRollback p := by
    have hnone : ((atomicHost.system.run unstoppedUpgrade).procs[2]?.map fun p =>
        p.history.any fun call => call.1.rollsBack) = some false := by decide +kernel
    rw [show (atomicHost.system.run unstoppedUpgrade).procs[2]? = some p from hp, Option.map_some,
      Option.some.injEq, List.any_eq_false] at hnone
    rintro ⟨rollback, result, hmem, -⟩
    exact hnone _ hmem rfl
  have hnotOver : ¬ (Prog.drive World.serve outlivesDeadline
      (executeWithProgress 7200 1 sampleUpdateSystem) .initial).2.Over := by
    intro hover
    rcases hover _ rfl with hexited | hdead
    · cases hexited
    · cases hdead
  exact ⟨p, _, hp, ⟨hattends, trivial⟩, hnotOver, commands_guarded unstoppedUpgrade hp
    ⟨hrequest, rfl⟩ ⟨hattends, trivial⟩ (.inr hnotOver) hstopped .system (by decide)⟩

/-- The rollback of the upgrade that failed is spawned next, for the upgrade is over. -/
theorem spawned_alone_failedUpgrade : ∃ p w,
    (atomicHost.system.run failedUpgrade).procs[2]? = some p ∧
    Beside 7200 p (.rollingBack sampleRollback (executeSpec 7200 sampleRollback)) w ∧
    w.Over ∧ sampleRollback.mechanism = .command "rpm-ostree" ["rollback"] ∧
    (progress atomicHost p).claimed = true ∧
      ∃ r, p.request = .execute r ∧
        Endpoint.ExecutedBy atomicHost r p.history sampleRollback := by
  obtain ⟨p, hp, hattends⟩ := exists_beside_upgrade exitsWithError (.ok ⟨"", "", 1⟩) 12 rfl
    (by decide +kernel)
  have hnext : ((atomicHost.system.run failedUpgrade).procs[2]?.map fun p =>
      nextRollback p.program) = some (some sampleRollback) := by decide +kernel
  rw [show (atomicHost.system.run failedUpgrade).procs[2]? = some p from hp, Option.map_some,
    Option.some.injEq] at hnext
  have hbeside : Beside 7200 p (.rollingBack sampleRollback (executeSpec 7200 sampleRollback)) _ :=
    ⟨hattends.startsRollback sampleRollback, exists_of_nextRollback hnext⟩
  exact ⟨p, _, hp, hbeside, spawned_alone failedUpgrade hp hbeside (.inr rfl)⟩

end Sysknife.Executor
