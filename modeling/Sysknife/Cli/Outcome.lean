import Sysknife.Cli.Client
import Sysknife.Dispatcher.Terminal

/-!
# What a client learns about an execution

`outcome_honest`: whatever happens to the connection, a client that is told its action did not run
had the daemon start nothing, and one that is told it succeeded had the daemon execute it exactly
once, successfully. A client that executes several steps sends no step after one that was not
reported to succeed.

The daemon's side is read by an automaton (`Reply`) that counts the executions and remembers
whether a reply was sent after which the client reads no more. Frames may be lost anywhere: what
the client reads is any sublist of what the handler tried to send.
-/

namespace Sysknife.Cli

open Dispatcher

/-! ### The daemon's replies -/

/-- What the handler of an execute request has done so far. -/
structure Reply where
  /-- How often the executor was called. -/
  executions : ℕ := 0
  /-- How the executions ended. -/
  results : List ExecutionResult := []
  /-- A reply was sent that ends the conversation. -/
  final : Bool := false

/-- The reply after one call and its answer. -/
def Reply.next (g : Reply) : (c : DaemonCall) → c.Answer → Reply
  | .executeWithProgress _, _ => { g with executions := g.executions + 1 }
  | .execute _, answer =>
    { g with executions := g.executions + 1, results := g.results ++ [answer] }
  | .executionResult, answer => { g with results := g.results ++ [answer.2] }
  | .send (.errorResponse _ _ _), _ => { g with final := true }
  | .send (.conflictResponse _ _ _), _ => { g with final := true }
  | .send (.jobCompleted _ _), _ => { g with final := true }
  | _, _ => g

/-- The action was executed exactly once, successfully. -/
def Reply.Succeeded (g : Reply) : Prop :=
  g.executions = 1 ∧ ∃ out, g.results = [.ok out] ∧ out.isSuccess = true

/-- A spelling that reports success. -/
def reportedSuccess (status : String) : Prop :=
  status = jobStateStr .succeeded ∨ status = jobStateStr .needsReboot

/-- When the handler may make a call. -/
def Reply.Allowed (g : Reply) : DaemonCall → Prop
  | .send (.errorResponse _ _ _) | .send (.conflictResponse _ _ _) => g.executions = 0
  | .send (.jobCompleted _ result) => reportedSuccess result.status → g.Succeeded
  | .executeWithProgress _ | .execute _ | .executionResult => g.final = false
  | _ => True

/-- The automaton of one request; requests that execute nothing are not watched. -/
@[reducible] def replies : Monitor DaemonCall DaemonCall.Answer where
  State := Option Reply
  next s c answer := s.map fun g => g.next c answer
  allowed s c := ∀ g ∈ s, g.Allowed c

section Obeys

variable {g : Reply} {α β : Type} {post : Option Reply → α → Prop}

/-- A call that is always allowed and leaves no trace. -/
def Neutral (c : DaemonCall) : Prop := ∀ g : Reply, g.Allowed c ∧ ∀ answer, g.next c answer = g

theorem obeys_neutral {c : DaemonCall} (hc : Neutral c) {f : c.Answer → Handler α}
    (h : ∀ answer, replies.Obeys post (f answer) (some g)) :
    replies.Obeys post (call c >>= f) (some g) := by
  refine Monitor.obeys_perform_bind (fun g' hg' => ?_) fun answer => ?_
  · exact (hc g').1
  · have hnext : replies.next (some g) c answer = some g := congrArg some ((hc g).2 answer)
    rw [hnext]
    exact h answer

theorem obeys_unwatched {p : Handler α} : replies.Obeys (fun _ _ => True) p none := by
  induction p with
  | pure a => exact trivial
  | call op k ih => exact ⟨fun g hg => (nomatch hg), fun r => ih r⟩

theorem obeys_sendError {requestId category message : String} (hg : g.executions = 0) :
    replies.Obeys (fun _ _ => True) (sendError requestId category message) (some g) := by
  refine Monitor.obeys_perform (fun g' hg' => ?_) fun _ => trivial
  rw [← Option.mem_some.mp hg']
  exact hg

theorem obeys_progress {jobId line : String} {f : Unit → Handler α}
    (h : replies.Obeys post (f ()) (some g)) :
    replies.Obeys post (sendBestEffort (.jobProgress jobId line) >>= f) (some g) :=
  Monitor.obeys_bind (obeys_neutral (c := .send (.jobProgress jobId line))
    (fun _ => ⟨trivial, fun _ => rfl⟩) fun _ => h)

theorem obeys_sendLines {jobId : String} {lines : List String} {f : Unit → Handler α}
    (h : replies.Obeys post (f ()) (some g)) :
    replies.Obeys post (sendLines jobId lines >>= f) (some g) := by
  refine Monitor.obeys_bind ?_
  induction lines with
  | nil => exact h
  | cons line rest ih => exact obeys_progress ih

theorem obeys_callerOwnsTransaction {caller : CallerAttribution} {t : String}
    {f : Ownership → Handler α} (h : ∀ o, replies.Obeys post (f o) (some g)) :
    replies.Obeys post (callerOwnsTransaction caller t >>= f) (some g) := by
  unfold callerOwnsTransaction
  split_ifs with hprincipal
  · exact h _
  · refine Monitor.obeys_bind (obeys_neutral (c := .fetchChainRow t)
      (fun _ => ⟨trivial, fun _ => rfl⟩) fun answer => ?_)
    match answer with
    | .error e => exact h _
    | .ok none => exact h _
    | .ok (some row) =>
      simp only
      cases row.callerPrincipal with
      | none => exact h _
      | some owner => exact h _

theorem obeys_retryTerminalStatus {t : String} {target : JobState} {retries : ℕ}
    {f : Except Store.StoreError Unit → Handler α}
    (h : ∀ written, replies.Obeys post (f written) (some g)) :
    replies.Obeys post (retryTerminalStatus t target retries >>= f) (some g) := by
  have hattempt (giveUp : Store.StoreError → Handler (Except Store.StoreError Unit))
      (hgiveUp : ∀ e, replies.Obeys (fun s o => replies.Obeys post (f o) s) (giveUp e) (some g)) :
      replies.Obeys (fun s o => replies.Obeys post (f o) s)
        (attemptTerminalStatus t target giveUp) (some g) := by
    refine obeys_neutral (c := .updateStatus t target) (fun _ => ⟨trivial, fun _ => rfl⟩)
      fun answer => ?_
    match answer with
    | .ok () => exact h _
    | .error e =>
      refine obeys_neutral (c := .get t) (fun _ => ⟨trivial, fun _ => rfl⟩) fun answer => ?_
      match answer with
      | .ok (some record) =>
        simp only
        split_ifs
        · exact h _
        · exact hgiveUp e
      | .ok none => exact hgiveUp e
      | .error _ => exact hgiveUp e
  refine Monitor.obeys_bind ?_
  induction retries with
  | zero => exact hattempt _ fun e => h _
  | succ retries ih => exact hattempt _ fun _ => ih

/-- Without a failure there is no rollback. -/
theorem obeys_attemptRollbackIfNeeded {jobId actionName : String} {spec : ActionSpec}
    {status : JobState} {summary : String} {running : Bool}
    {f : JobState × String × Option String → Handler α} (hfinal : g.final = false)
    (hkept : ∀ summary, replies.Obeys post (f (status, summary, none)) (some g))
    (hrolled : status = .failed → ∀ g' status' summary' rollbackRef, g'.final = false →
      (status' = .failed ∨ status' = .rolledBack) →
        replies.Obeys post (f (status', summary', rollbackRef)) (some g')) :
    replies.Obeys post (attemptRollbackIfNeeded jobId actionName spec status summary running >>= f)
      (some g) := by
  unfold attemptRollbackIfNeeded
  split_ifs with hstatus hrunning
  · exact hkept summary
  · exact Monitor.obeys_bind (obeys_progress (hkept _))
  · have hfailed : status = .failed := by
      by_contra hne
      exact hstatus (.inl hne)
    cases rollbackSpecFor actionName with
    | none => exact hkept summary
    | some rbSpec =>
      refine Monitor.obeys_bind (obeys_progress ?_)
      refine Monitor.obeys_perform_bind (fun g' hg' => ?_) fun answer => ?_
      · rw [← Option.mem_some.mp hg']
        exact hfinal
      · have hgaveUp (g' : Reply) (hg' : g'.final = false) (detail : String) :
            replies.Obeys (fun s o => replies.Obeys post (f o) s)
              (sendBestEffort (.jobProgress jobId ("Rollback also failed (" ++ detail ++
                ") — system may need manual intervention")) >>= fun _ =>
                  (pure (status, summary, none) : Handler _)) (some g') :=
          obeys_progress (hrolled hfailed g' _ _ _ hg' (.inl hfailed))
        have hunread (answer : ExecutionResult) :
            (g.next (.execute rbSpec) answer).final = false := hfinal
        match answer with
        | .error e => exact hgaveUp _ (hunread (.error e)) e.message
        | .ok rbOut =>
          simp only
          split_ifs
          · exact obeys_progress (hrolled hfailed _ _ _ _ hfinal (.inr rfl))
          · exact hgaveUp _ (hunread (.ok rbOut))
              ("exit code " ++ toString rbOut.exitCode)

/-- The status of a successful report is that of an execution that succeeded. -/
theorem succeeded_of_initialStatus {actionName : String} {spec : ActionSpec}
    {output : ExecutionResult}
    (h : (initialStatus actionName spec output).1 ≠ .failed) :
    ∃ out, output = .ok out ∧ out.isSuccess = true := by
  cases output with
  | error e => exact absurd rfl h
  | ok out =>
    refine ⟨out, rfl, ?_⟩
    by_contra hout
    rw [initialStatus, if_neg hout] at h
    exact h rfl

theorem not_reportedSuccess {status : JobState} (h : status = .failed ∨ status = .rolledBack) :
    ¬reportedSuccess (jobStateStr status) := by
  rcases h with rfl | rfl
  · rintro (h | h) <;> exact absurd h (by decide)
  · rintro (h | h) <;> exact absurd h (by decide)

variable {d : Daemon} {r : ExecuteRequest} {spec : ActionSpec}

theorem obeys_executeFinish {jobId : String} {output : ExecutionResult}
    (hexecutions : g.executions = 1) (hresults : g.results = [output]) (hfinal : g.final = false) :
    replies.Obeys (fun _ _ => True) (executeFinish d r spec jobId output) (some g) := by
  -- from the rollback on, only the report matters
  have hreport (warnings : Except Store.StoreError Unit → List String) (g' : Reply)
      (status : JobState) (summary : String) (rollbackRef : Option String)
      (hstatus : reportedSuccess (jobStateStr status) → g'.Succeeded) :
      replies.Obeys (fun _ _ => True) (do
        unless mayStillBeRunning output do releaseExclusiveSlots d r spec
        let written ← updateTerminalStatus r.transactionId status
        sendResponse (.jobCompleted jobId
          ⟨jobStateStr status, summary, warnings written, jobId, status == .needsReboot,
            rollbackRef, r.transactionId⟩)) (some g') := by
    have hlast : ∀ written : Except Store.StoreError Unit, replies.Obeys (fun _ _ => True)
        (sendResponse (.jobCompleted jobId
          ⟨jobStateStr status, summary, warnings written, jobId, status == .needsReboot,
            rollbackRef, r.transactionId⟩)) (some g') := by
      intro written
      refine Monitor.obeys_perform (fun g'' hg'' => ?_) fun _ => trivial
      rw [← Option.mem_some.mp hg'']
      exact hstatus
    split_ifs
    · exact obeys_retryTerminalStatus hlast
    · exact obeys_neutral (c := .release _ _) (fun _ => ⟨trivial, fun _ => rfl⟩) fun _ =>
        obeys_retryTerminalStatus hlast
  refine obeys_progress (obeys_attemptRollbackIfNeeded hfinal (fun summary => ?_) ?_)
  · refine hreport _ g _ _ _ fun hreported => ⟨hexecutions, ?_⟩
    have hne : (initialStatus r.actionName spec output).1 ≠ .failed := by
      intro hfailed
      exact not_reportedSuccess (.inl hfailed) hreported
    obtain ⟨out, rfl, hout⟩ := succeeded_of_initialStatus hne
    exact ⟨out, hresults, hout⟩
  · intro _ g' status' summary' rollbackRef _ hstatus'
    exact hreport _ g' _ _ _ fun hreported => absurd hreported (not_reportedSuccess hstatus')

theorem obeys_executeRun {jobId : String} (hexecutions : g.executions = 0)
    (hresults : g.results = []) (hfinal : g.final = false) :
    replies.Obeys (fun _ _ => True) (executeRun d r spec jobId) (some g) := by
  refine obeys_progress (obeys_progress ?_)
  refine Monitor.obeys_perform_bind (fun g' hg' => ?_) fun _ => ?_
  · rw [← Option.mem_some.mp hg']
    exact hfinal
  refine Monitor.obeys_perform_bind (fun g' hg' => ?_) fun answer => ?_
  · rw [← Option.mem_some.mp hg']
    exact hfinal
  obtain ⟨lines, output⟩ := answer
  have hone : g.executions + 1 = 1 := by rw [hexecutions]
  have houtput : g.results ++ [output] = [output] := by rw [hresults, List.nil_append]
  exact obeys_sendLines (obeys_executeFinish hone houtput hfinal)

theorem obeys_executeStart (hexecutions : g.executions = 0) (hresults : g.results = [])
    (hfinal : g.final = false) :
    replies.Obeys (fun _ _ => True) (executeStart d r spec) (some g) := by
  refine obeys_neutral (c := .newUuid) (fun _ => ⟨trivial, fun _ => rfl⟩) fun jobId => ?_
  refine obeys_neutral (c := .send (.jobStarted r.requestId jobId r.transactionId))
    (fun _ => ⟨trivial, fun _ => rfl⟩) fun answer => ?_
  match answer with
  | .error e =>
    refine obeys_neutral (c := .release _ _) (fun _ => ⟨trivial, fun _ => rfl⟩) fun _ => ?_
    exact obeys_retryTerminalStatus fun _ => trivial
  | .ok () => exact obeys_executeRun hexecutions hresults hfinal

theorem obeys_recheckAutoremove {f : Except Refusal Unit → Handler α}
    (h : ∀ verdict, replies.Obeys post (f verdict) (some g)) :
    replies.Obeys post (recheckAutoremove r >>= f) (some g) := by
  refine Monitor.obeys_bind ?_
  unfold recheckAutoremove
  split_ifs
  · refine obeys_neutral (c := .getPreview _) (fun _ => ⟨trivial, fun _ => rfl⟩) fun answer => ?_
    cases approvedPreview answer with
    | error refusal => exact h _
    | ok preview =>
      exact obeys_neutral (c := .runCommand _ _) (fun _ => ⟨trivial, fun _ => rfl⟩) fun _ => h _
  · exact h _

theorem obeys_recheckDeployment {f : Except Refusal Unit → Handler α}
    (h : ∀ verdict, replies.Obeys post (f verdict) (some g)) :
    replies.Obeys post (recheckDeployment d r >>= f) (some g) := by
  refine Monitor.obeys_bind ?_
  unfold recheckDeployment
  split_ifs
  · refine obeys_neutral (c := .getPreview _) (fun _ => ⟨trivial, fun _ => rfl⟩) fun answer => ?_
    cases approvedPreview answer with
    | error refusal => exact h _
    | ok preview =>
      simp only
      cases (r.params.get "index").bind Value.asU64 with
      | none => exact h _
      | some index =>
        exact obeys_neutral (c := .runCommand _ _) (fun _ => ⟨trivial, fun _ => rfl⟩) fun _ => h _
  · exact h _

/-- A refusal gives the slots back and reports an error. -/
theorem obeys_refuse {category message : String} (hexecutions : g.executions = 0) :
    replies.Obeys (fun _ _ => True) (do
      releaseExclusiveSlots d r spec
      sendError r.requestId category message) (some g) :=
  obeys_neutral (c := .release _ _) (fun _ => ⟨trivial, fun _ => rfl⟩) fun _ =>
    obeys_sendError hexecutions

theorem obeys_executeClaimed (hexecutions : g.executions = 0) (hresults : g.results = [])
    (hfinal : g.final = false) :
    replies.Obeys (fun _ _ => True) (executeClaimed d r spec) (some g) := by
  refine obeys_recheckAutoremove fun verdict => ?_
  cases verdict with
  | error refusal => exact obeys_refuse hexecutions
  | ok _ =>
    refine obeys_recheckDeployment fun verdict => ?_
    cases verdict with
    | error refusal => exact obeys_refuse hexecutions
    | ok _ => exact obeys_executeStart hexecutions hresults hfinal

theorem obeys_executeAdmitted (hexecutions : g.executions = 0) (hresults : g.results = [])
    (hfinal : g.final = false) :
    replies.Obeys (fun _ _ => True) (executeAdmitted d r spec) (some g) := by
  refine obeys_neutral (c := .claimApprovedForExecution _ _ _) (fun _ => ⟨trivial, fun _ => rfl⟩)
    fun answer => ?_
  match answer with
  | .error e => exact obeys_refuse hexecutions
  | .ok false => exact obeys_refuse hexecutions
  | .ok true => exact obeys_executeClaimed hexecutions hresults hfinal

theorem obeys_executeGate (hexecutions : g.executions = 0) (hresults : g.results = [])
    (hfinal : g.final = false) :
    replies.Obeys (fun _ _ => True) (executeGate d r spec) (some g) := by
  unfold executeGate
  split_ifs
  · refine obeys_neutral (c := .enterGate _ _ _) (fun _ => ⟨trivial, fun _ => rfl⟩) fun answer => ?_
    match answer with
    | some (resource, hash) =>
      refine Monitor.obeys_perform (fun g' hg' => ?_) fun _ => trivial
      rw [← Option.mem_some.mp hg']
      exact hexecutions
    | none => exact obeys_executeAdmitted hexecutions hresults hfinal
  · exact obeys_executeAdmitted hexecutions hresults hfinal

theorem obeys_executeAuthorized (hexecutions : g.executions = 0) (hresults : g.results = [])
    (hfinal : g.final = false) :
    replies.Obeys (fun _ _ => True) (executeAuthorized d r spec) (some g) := by
  unfold executeAuthorized
  split_ifs
  · exact obeys_sendError hexecutions
  cases d.validateActionPlatform r.actionName with
  | error message => exact obeys_sendError hexecutions
  | ok _ =>
    refine obeys_neutral (c := .get _) (fun _ => ⟨trivial, fun _ => rfl⟩) fun answer => ?_
    match answer with
    | .error e => exact obeys_sendError hexecutions
    | .ok none => exact obeys_sendError hexecutions
    | .ok (some priorTx) =>
      simp only
      split_ifs
      · exact obeys_sendError hexecutions
      · exact obeys_executeGate hexecutions hresults hfinal

/-- Every reply to an execute request agrees with what was executed. -/
theorem obeys_handleExecute (d : Daemon) (r : ExecuteRequest) :
    replies.Obeys (fun _ _ => True) (handleExecute d r) (some {}) := by
  unfold handleExecute
  cases d.buildActionSpec r.actionName r.params with
  | error e => exact obeys_sendError rfl
  | ok spec =>
    refine obeys_callerOwnsTransaction fun o => ?_
    cases o with
    | owned => exact obeys_executeAuthorized rfl rfl rfl
    | noSuchTransaction => exact obeys_executeAuthorized rfl rfl rfl
    | notOwned => exact obeys_sendError rfl
    | cannotEstablish message => exact obeys_sendError rfl

end Obeys

/-! ### What the replies prove -/

/-- A call of the daemon with its answer. -/
abbrev DaemonEvent := Call DaemonCall DaemonCall.Answer

/-- The responses a process tried to send. -/
def sentFrames (history : List DaemonEvent) : List DaemonResponse :=
  history.filterMap fun
    | ⟨.send response, _⟩ => some response
    | _ => none

/-- What a process asked the executor to do. -/
def executorCalls (history : List DaemonEvent) : List ActionSpec :=
  history.filterMap fun
    | ⟨.executeWithProgress spec, _⟩ => some spec
    | ⟨.execute spec, _⟩ => some spec
    | _ => none

/-- How the executions of a process ended. -/
def executorResults (history : List DaemonEvent) : List ExecutionResult :=
  history.filterMap fun
    | ⟨.executionResult, (_, output)⟩ => some output
    | ⟨.execute _, output⟩ => some output
    | _ => none

/-- A reply that says the action did not run. -/
def refuses : DaemonResponse → Bool
  | .errorResponse _ _ _ => true
  | .conflictResponse _ _ _ => true
  | _ => false

namespace Reply

/-- Every call was allowed when it was made. -/
def Conducted : Reply → List DaemonEvent → Prop
  | _, [] => True
  | g, c :: rest => g.Allowed c.1 ∧ (g.next c.1 c.2).Conducted rest

variable {g : Reply} {history : List DaemonEvent}

theorem next_executions (g : Reply) (e : DaemonEvent) :
    (g.next e.1 e.2).executions = g.executions + (executorCalls [e]).length := by
  obtain ⟨c, answer⟩ := e
  cases c with
  | send response => cases response <;> rfl
  | _ => rfl

theorem next_results (g : Reply) (e : DaemonEvent) :
    (g.next e.1 e.2).results = g.results ++ executorResults [e] := by
  obtain ⟨c, answer⟩ := e
  cases c with
  | send response => cases response <;> exact (List.append_nil _).symm
  | executionResult => rfl
  | execute spec => rfl
  | _ => exact (List.append_nil _).symm

theorem final_next {c : DaemonCall} {answer : c.Answer} (h : g.final = true) :
    (g.next c answer).final = true := by
  cases c with
  | send response => cases response <;> first | rfl | exact h
  | _ => exact h

theorem executorCalls_cons (e : DaemonEvent) (history : List DaemonEvent) :
    executorCalls (e :: history) = executorCalls [e] ++ executorCalls history :=
  List.filterMap_append (l := [e])

theorem executorResults_cons (e : DaemonEvent) (history : List DaemonEvent) :
    executorResults (e :: history) = executorResults [e] ++ executorResults history :=
  List.filterMap_append (l := [e])

/-- After a reply that ends the conversation nothing is executed. -/
theorem Conducted.quiet_of_final (h : g.Conducted history) (hfinal : g.final = true) :
    executorCalls history = [] ∧ executorResults history = [] := by
  induction history generalizing g with
  | nil => exact ⟨rfl, rfl⟩
  | cons e rest ih =>
    obtain ⟨hallowed, hrest⟩ := h
    obtain ⟨hcalls, hresults⟩ := ih hrest (final_next hfinal)
    have hquiet : executorCalls [e] = [] ∧ executorResults [e] = [] := by
      obtain ⟨c, answer⟩ := e
      cases c with
      | executeWithProgress spec => exact absurd (hallowed.symm.trans hfinal) (by decide)
      | execute spec => exact absurd (hallowed.symm.trans hfinal) (by decide)
      | executionResult => exact absurd (hallowed.symm.trans hfinal) (by decide)
      | _ => exact ⟨rfl, rfl⟩
    rw [executorCalls_cons, executorResults_cons, hquiet.1, hquiet.2]
    exact ⟨hcalls, hresults⟩

theorem mem_sentFrames_cons {e : DaemonEvent} {frame : DaemonResponse}
    (h : frame ∈ sentFrames (e :: history)) :
    e.1 = .send frame ∨ frame ∈ sentFrames history := by
  rw [sentFrames, List.mem_filterMap] at h
  obtain ⟨e', hmem, he'⟩ := h
  rcases List.mem_cons.mp hmem with rfl | hmem
  · left
    obtain ⟨c, answer⟩ := e'
    cases c with
    | send response => exact congrArg DaemonCall.send (Option.some.inj he')
    | _ => cases he'
  · exact .inr (List.mem_filterMap.mpr ⟨e', hmem, he'⟩)

/-- A reply that says the action did not run is right. -/
theorem Conducted.refusal_honest (h : g.Conducted history) {frame : DaemonResponse}
    (hmem : frame ∈ sentFrames history) (hrefuses : refuses frame = true) :
    g.executions = 0 ∧ executorCalls history = [] := by
  induction history generalizing g with
  | nil => cases hmem
  | cons e rest ih =>
    obtain ⟨hallowed, hrest⟩ := h
    have hnext := next_executions g e
    rw [executorCalls_cons]
    rcases mem_sentFrames_cons hmem with he | hmem
    · -- this is the refusal: nothing was executed before, nothing is afterwards
      obtain ⟨c, answer⟩ := e
      obtain rfl : c = .send frame := he
      cases frame with
      | errorResponse requestId category message =>
        exact ⟨hallowed, (hrest.quiet_of_final rfl).1⟩
      | conflictResponse requestId message rollbackRef =>
        exact ⟨hallowed, (hrest.quiet_of_final rfl).1⟩
      | _ => cases hrefuses
    · obtain ⟨hzero, hlater⟩ := ih hrest hmem
      have hnow : (executorCalls [e]).length = 0 := by omega
      rw [List.length_eq_zero_iff.mp hnow, hlater]
      exact ⟨by omega, rfl⟩

/-- A report of success is right. -/
theorem Conducted.completion_honest (h : g.Conducted history) {jobId : String} {result : JobResult}
    (hmem : .jobCompleted jobId result ∈ sentFrames history)
    (hreported : reportedSuccess result.status) :
    g.executions + (executorCalls history).length = 1 ∧
      ∃ out, g.results ++ executorResults history = [.ok out] ∧ out.isSuccess = true := by
  induction history generalizing g with
  | nil => cases hmem
  | cons e rest ih =>
    obtain ⟨hallowed, hrest⟩ := h
    rw [executorCalls_cons, executorResults_cons]
    rcases mem_sentFrames_cons hmem with he | hmem
    · obtain ⟨c, answer⟩ := e
      obtain rfl : c = .send (.jobCompleted jobId result) := he
      obtain ⟨hcalls, hresults⟩ := hrest.quiet_of_final rfl
      obtain ⟨hone, out, hout, hsuccess⟩ := hallowed hreported
      refine ⟨?_, out, ?_, hsuccess⟩
      · rw [hcalls]
        exact hone
      · rw [hresults, hout]
        rfl
    · obtain ⟨hone, out, hout, hsuccess⟩ := ih hrest hmem
      have hnext := next_executions g e
      rw [next_results, List.append_assoc] at hout
      refine ⟨?_, out, hout, hsuccess⟩
      rw [List.length_append]
      omega

end Reply

/-! ### What the client reads -/

theorem eq_of_parseJobState {spelling : String} {status : JobState}
    (h : parseJobState spelling = some status) : spelling = jobStateStr status := by
  unfold parseJobState at h
  split at h
  case h_8 => cases h
  all_goals
    obtain rfl := Option.some.inj h
    rfl

/-- A failure that leaves nothing open comes from a refusal. -/
theorem refusal_of_readReplies {ending : Ending} {frames : List DaemonResponse}
    {failure : ExecuteFailure} (h : readReplies ending frames = .error failure)
    (hknown : failure.outcomeUnknown = false) : ∃ frame ∈ frames, refuses frame = true := by
  induction frames with
  | nil =>
    obtain rfl := Except.error.inj h
    cases hknown
  | cons frame rest ih =>
    have hlater (hrest : readReplies ending rest = .error failure) :
        ∃ frame' ∈ frame :: rest, refuses frame' = true := by
      obtain ⟨frame', hmem, hrefuses⟩ := ih hrest
      exact ⟨frame', List.mem_cons_of_mem _ hmem, hrefuses⟩
    cases frame with
    | jobStarted requestId jobId transactionId => exact hlater h
    | jobProgress jobId message => exact hlater h
    | errorResponse requestId category message => exact ⟨_, List.mem_cons_self, rfl⟩
    | conflictResponse requestId message rollbackRef => exact ⟨_, List.mem_cons_self, rfl⟩
    | jobCompleted jobId result =>
      rw [readReplies] at h
      cases hparse : parseResult result with
      | some envelope =>
        rw [hparse] at h
        cases h
      | none =>
        rw [hparse] at h
        obtain rfl := Except.error.inj h
        cases hknown
    | _ =>
      obtain rfl := Except.error.inj h
      cases hknown

/-- A result comes from a report. -/
theorem completion_of_readReplies {ending : Ending} {frames : List DaemonResponse}
    {envelope : ResultEnvelope} (h : readReplies ending frames = .ok envelope) :
    ∃ jobId result, .jobCompleted jobId result ∈ frames ∧
      result.status = jobStateStr envelope.status := by
  induction frames with
  | nil => cases h
  | cons frame rest ih =>
    have hlater (hrest : readReplies ending rest = .ok envelope) :
        ∃ jobId result, .jobCompleted jobId result ∈ frame :: rest ∧
          result.status = jobStateStr envelope.status := by
      obtain ⟨jobId, result, hmem, hstatus⟩ := ih hrest
      exact ⟨jobId, result, List.mem_cons_of_mem _ hmem, hstatus⟩
    cases frame with
    | jobStarted requestId jobId transactionId => exact hlater h
    | jobProgress jobId message => exact hlater h
    | jobCompleted jobId result =>
      rw [readReplies] at h
      cases hparse : parseResult result with
      | some envelope' =>
        rw [hparse] at h
        obtain rfl := Except.ok.inj h
        obtain ⟨status, hstatus, rfl⟩ := Option.map_eq_some_iff.mp hparse
        exact ⟨jobId, result, List.mem_cons_self, eq_of_parseJobState hstatus⟩
      | none =>
        rw [hparse] at h
        cases h
    | _ => cases h

/-! ### One attempt against the daemon -/

section Attempts

variable {d : Daemon} {events : List d.system.Event} {r : ExecuteRequest}
  {history : List DaemonEvent} {attempt : Attempt}

/-- What a process of the daemon has done for the request so far, if it arrived at all. -/
def Handled (d : Daemon) (events : List d.system.Event) (r : ExecuteRequest)
    (history : List DaemonEvent) : Prop :=
  history = [] ∨ ∃ (pid : ℕ) (p : d.system.Process), (d.system.run events).procs[pid]? = some p ∧
    p.request = .execute r ∧ p.history = history

/-- What the daemon has done for an attempt. Any of the frames it sent may be lost. -/
def Served (d : Daemon) (events : List d.system.Event) (r : ExecuteRequest) (attempt : Attempt)
    (history : List DaemonEvent) : Prop :=
  match attempt with
  | .unsent _ => history = []
  | .sendFailed _ => Handled d events r history
  | .sent frames _ => Handled d events r history ∧ frames.Sublist (sentFrames history)

/-- What is watched of a request. -/
def watched : Dispatcher.Request → Option Reply
  | .execute _ => some {}
  | _ => none

theorem conducted_of_allowed {g : Reply}
    (h : ∀ pre e suf, history = pre ++ e :: suf →
      replies.allowed (replies.after (some g) pre) e.1) :
    g.Conducted history := by
  induction history generalizing g with
  | nil => trivial
  | cons e rest ih =>
    refine ⟨h [] e rest rfl g rfl, ih fun pre e' suf hsplit => ?_⟩
    exact h (e :: pre) e' suf (by rw [hsplit]; rfl)

theorem conducted_of_handled (h : Handled d events r history) :
    Reply.Conducted {} history := by
  rcases h with rfl | ⟨pid, p, hp, hrequest, rfl⟩
  · trivial
  · have hprogram : ∀ req,
        replies.Obeys (fun _ _ => True) (d.system.program req) (watched req) := by
      intro req
      cases req with
      | execute r => exact Monitor.obeys_bind ((obeys_handleExecute d r).mono fun _ _ _ => trivial)
      | _ => exact obeys_unwatched
    refine conducted_of_allowed fun pre e suf hsplit => ?_
    have hallowed := System.history_allowed replies watched hprogram events hp hsplit
    rw [hrequest] at hallowed
    exact hallowed

end Attempts

/-! ### The steps of a plan -/

/-- The steps that may still be sent; none after one that did not succeed. -/
@[reducible] def stepsLeft :
    Monitor StepToExecute (fun _ => Except ExecuteFailure ResultEnvelope) where
  State := List StepToExecute
  next left _ answer := if reportsSuccess answer then left.tail else []
  allowed left step := left.head? = some step

theorem obeys_executeStepsWithClient (steps : List StepToExecute) :
    stepsLeft.Obeys (fun _ _ => True) (executeStepsWithClient steps) steps := by
  induction steps with
  | nil => trivial
  | cons step rest ih =>
    refine Monitor.obeys_perform_bind rfl fun answer => ?_
    match answer with
    | .error failure => trivial
    | .ok result =>
      by_cases hsucceeded : result.status = .succeeded
      · have hleft : stepsLeft.next (step :: rest) step (.ok result) = rest := by
          simp [reportsSuccess, hsucceeded]
        rw [hleft]
        simp only [hsucceeded, reduceIte]
        exact Monitor.obeys_bind (ih.mono fun _ _ _ => trivial)
      · simp only [hsucceeded, reduceIte]
        trivial

/-- As long as a step may be sent, every earlier one succeeded. -/
theorem left_of_after {steps : List StepToExecute}
    {calls : List (Call StepToExecute fun _ => Except ExecuteFailure ResultEnvelope)}
    (h : stepsLeft.after steps calls ≠ []) :
    stepsLeft.after steps calls = steps.drop calls.length ∧
      ∀ c ∈ calls, reportsSuccess c.2 = true := by
  induction calls using List.reverseRecOn with
  | nil => exact ⟨rfl, fun c hc => nomatch hc⟩
  | append_singleton calls c ih =>
    rw [Monitor.after_concat] at h ⊢
    cases hsuccess : reportsSuccess c.2 with
    | false =>
      simp only [hsuccess, Bool.false_eq_true, reduceIte] at h
      exact absurd rfl h
    | true =>
      simp only [hsuccess, reduceIte] at h ⊢
      have hbefore : stepsLeft.after steps calls ≠ [] := by
        intro hnil
        rw [hnil] at h
        exact h rfl
      obtain ⟨hdrop, hall⟩ := ih hbefore
      refine ⟨?_, ?_⟩
      · rw [hdrop, List.tail_drop, List.length_append, List.length_singleton]
      · simpa [or_imp, forall_and, hsuccess] using hall

/-- A client learns the truth about its executions: told that its action did not run, nothing was
executed; told that it succeeded, it was executed exactly once, successfully. And the steps of a
plan are sent in order, each only after all before it succeeded. -/
theorem outcome_honest (d : Daemon) (events : List d.system.Event) (r : ExecuteRequest)
    (attempt : Attempt) (history : List DaemonEvent) (h : Served d events r attempt history) :
    (∀ failure, executeWithOutcome attempt = .error failure → failure.outcomeUnknown = false →
      executorCalls history = []) ∧
    (∀ result, executeWithOutcome attempt = .ok result →
      result.status = .succeeded ∨ result.status = .needsReboot →
        ∃ spec out, executorCalls history = [spec] ∧ executorResults history = [.ok out] ∧
          out.isSuccess = true) ∧
    ∀ (steps : List StepToExecute)
      (calls : List (Call StepToExecute fun _ => Except ExecuteFailure ResultEnvelope)),
      Prog.Traces (executeStepsWithClient steps) calls →
        ∀ pre c suf, calls = pre ++ c :: suf →
          steps[pre.length]? = some c.1 ∧ ∀ c' ∈ pre, reportsSuccess c'.2 = true := by
  refine ⟨fun failure hfailure hknown => ?_, fun result hresult hstatus => ?_, ?_⟩
  · cases attempt with
    | unsent error => rw [h]; rfl
    | sendFailed error =>
      obtain rfl := Except.error.inj hfailure
      cases hknown
    | sent frames ending =>
      obtain ⟨hhandled, hframes⟩ := h
      obtain ⟨frame, hmem, hrefuses⟩ := refusal_of_readReplies hfailure hknown
      exact ((conducted_of_handled hhandled).refusal_honest (hframes.subset hmem) hrefuses).2
  · cases attempt with
    | unsent error => cases hresult
    | sendFailed error => cases hresult
    | sent frames ending =>
      obtain ⟨hhandled, hframes⟩ := h
      obtain ⟨jobId, report, hmem, hspelling⟩ := completion_of_readReplies hresult
      have hreported : reportedSuccess report.status := by
        rw [hspelling]
        rcases hstatus with hstatus | hstatus
        · exact .inl (congrArg jobStateStr hstatus)
        · exact .inr (congrArg jobStateStr hstatus)
      obtain ⟨hone, out, hout, hsuccess⟩ :=
        (conducted_of_handled hhandled).completion_honest (hframes.subset hmem) hreported
      rw [Nat.zero_add, List.length_eq_one_iff] at hone
      obtain ⟨spec, hspec⟩ := hone
      exact ⟨spec, out, hspec, hout, hsuccess⟩
  · intro steps calls htrace pre c suf hsplit
    have hallowed := htrace.allowed (obeys_executeStepsWithClient steps) hsplit
    have hleft : stepsLeft.after steps pre ≠ [] := by
      intro hnil
      rw [hnil] at hallowed
      exact absurd hallowed (by simp)
    obtain ⟨hdrop, hall⟩ := left_of_after hleft
    have hhead : (steps.drop pre.length).head? = some c.1 := hdrop ▸ hallowed
    rw [List.head?_drop] at hhead
    exact ⟨hhead, hall⟩

theorem exists_of_reportsSuccess {answer : Except ExecuteFailure ResultEnvelope}
    (h : reportsSuccess answer = true) :
    ∃ result, answer = .ok result ∧ result.status = .succeeded := by
  cases answer with
  | error failure => cases h
  | ok result => exact ⟨result, rfl, eq_of_beq h⟩

/-- What the daemon did to start a service. -/
def startedHistory : List DaemonEvent :=
  ((atomicHost.system.run serviceStarted).procs[2]?.map System.Process.history).getD []

/-- All replies arrive, and they report success. -/
theorem outcome_honest_started : ∃ spec out, executorCalls startedHistory = [spec] ∧
    executorResults startedHistory = [.ok out] ∧ out.isSuccess = true := by
  obtain ⟨p, hp, -⟩ := returned_of_flags serviceStarted 2 (by decide +kernel)
  have hreq := request_of_arrival hp rfl
  have hhistory : startedHistory = p.history := by rw [startedHistory, hp]; rfl
  have hserved : Served atomicHost serviceStarted _
      (.sent (sentFrames startedHistory) .timedOut) startedHistory :=
    ⟨.inr ⟨2, p, hp, hreq, hhistory.symm⟩, .refl _⟩
  have hreports :
      reportsSuccess (executeWithOutcome (.sent (sentFrames startedHistory) .timedOut)) = true := by
    decide +kernel
  obtain ⟨result, hresult, hstatus⟩ := exists_of_reportsSuccess hreports
  exact (outcome_honest atomicHost serviceStarted _ _ _ hserved).2.1 result hresult (.inl hstatus)

end Sysknife.Cli
