import Sysknife.Executor.Processes
import Sysknife.Helpers.EditGrammars
import Sysknife.Lib.Guarded

/-!
# What the executor reports

The executor's programs are verified against the worlds of `Processes`: `World.Permits` says when a
call may be made, and `Verdict` what the result says about the command.

* `verdict_of_leads`: **the verdict is right.** A result other than that the action may still be
  running comes from a command that is over.
* `signals_aimed`: **signals are aimed.** The executor spawns the command of its action, signals the
  group of that command alone, and has root do no more.
-/

namespace Sysknife.Executor

/-! ### A command and its group -/

/-- The last command is over: it ended on its own, or none of its group is left. -/
def World.Over (w : World) : Prop := ∀ c, w.child = some c → c.exited = true ∨ c.alive = false

/-- The command `pid` was spawned last and has not ended on its own. -/
def World.Watches (w : World) (pid : Pid) (c : Child) : Prop :=
  w.child = some c ∧ c.pid = pid ∧ c.exited = false

section Evolve

variable {w : World} {c : Child} {choice : OsChoice} {pid : Pid}

@[simp] theorem Child.pid_evolve : (c.evolve choice).pid = c.pid := by
  unfold evolve
  split_ifs
  · rfl
  · rfl

@[simp] theorem Child.waited_evolve : (c.evolve choice).waited = c.waited := by
  unfold evolve
  split_ifs
  · rfl
  · rfl

@[simp] theorem Child.exited_evolve : (c.evolve choice).exited = c.exited := by
  unfold evolve
  split_ifs
  · rfl
  · rfl

/-- A group without members stays without. -/
theorem Child.evolve_of_not_alive (h : c.alive = false) : c.evolve choice = c := by
  rw [evolve, h]
  rfl

theorem World.child_evolve : (w.evolve choice).child = w.child.map (·.evolve choice) := rfl

theorem over_evolve (h : w.Over) : (w.evolve choice).Over := by
  intro c' hc'
  obtain ⟨c, hc, rfl⟩ := Option.map_eq_some_iff.mp hc'
  rcases h c hc with hexited | hdead
  · exact .inl (by rw [Child.exited_evolve, hexited])
  · exact .inr (by rw [Child.evolve_of_not_alive hdead, hdead])

theorem watches_evolve (h : w.Watches pid c) : (w.evolve choice).Watches pid (c.evolve choice) := by
  obtain ⟨hc, rfl, hexited⟩ := h
  refine ⟨?_, Child.pid_evolve, by rw [Child.exited_evolve, hexited]⟩
  rw [World.child_evolve, hc]
  rfl

end Evolve

/-! ### What the executor may do -/

/-- When the executor makes a call for an action: it spawns the action's command once the last one
is over, looks at and signals the group of its own command only, and that with members, and runs
`sudo` only where that group has members; a cancellation or a first signal only where it may signal
none of them. -/
def World.Permits (spec : ActionSpec) (w : World) : OsCall → Prop
  | .spawn program args => w.Over ∧ spec.mechanism = .command program args
  | .startKill => ∃ c, w.child = some c ∧ c.waited = false
  | .killpg pgid signal =>
    ∃ c, w.child = some c ∧ pgid = c.pid.val ∧ (signal = 0 ∨ c.alive = true)
  | .sudo args => ∃ c, w.child = some c ∧ c.alive = true ∧
      ((c.signalable = false ∧
          (args = ostreeCancelArgv ∨ args = rootGroupKillArgv "TERM" c.pid.val)) ∨
        args = rootGroupKillArgv "KILL" c.pid.val)
  | _ => True

/-- A part of the executor makes permitted calls only, and ends as `post` asks. -/
abbrev Guards {α : Type} (spec : ActionSpec) (post : World → α → Prop) (p : OsProg α) (w : World) :
    Prop :=
  Prog.Guarded World.serve (World.Permits spec) post p w

section Guarded

variable {α : Type} {spec : ActionSpec} {w : World} {c : Child} {pid : Pid}
  {post : World → α → Prop}

/-- A call at which the group only goes on. -/
theorem guarded_evolving {op : OsCall} {f : op.Answer → OsProg α} (hop : w.Permits spec op)
    (hserve : ∀ choice, (w.serve choice op).2 = w.evolve choice)
    (hrest : ∀ choice, Guards spec post (f (w.serve choice op).1)
      (w.evolve choice)) :
    Guards spec post (os op >>= f) w :=
  Prog.guarded_perform_bind hop fun choice => by
    rw [hserve]
    exact hrest choice

/-- A probe tells whether the group has members, and whether all of them are out of reach. -/
theorem guarded_probeGroup (h : w.Watches pid c) {f : GroupState → OsProg α}
    (hrest : ∀ w c s, w.Watches pid c → s.isGone = !c.alive →
      (s = .aliveUnreachable → c.signalable = false) →
        Guards spec post (f s) w) :
    Guards spec post (probeGroup pid.val >>= f) w := by
  have hpermits : w.Permits spec (.killpg pid.val 0) := ⟨c, h.1, by rw [h.2.1], .inl rfl⟩
  refine Prog.guarded_bind (Prog.guarded_perform_bind hpermits fun choice => ?_)
  have hwatches : (w.evolve choice).Watches pid (c.evolve choice) := watches_evolve h
  have hanswer : (w.serve choice (.killpg pid.val 0)).1 = (c.evolve choice).killpg choice := by
    simp only [World.serve, hwatches.1]
    rw [if_pos (by rw [hwatches.2.1])]
  rw [hanswer, Child.killpg]
  cases halive : (c.evolve choice).alive with
  | false =>
    refine hrest _ _ .gone hwatches (by rw [halive]; rfl) fun hs => ?_
    cases hs
  | true =>
    simp only [if_true]
    cases choice.strange with
    | some errno =>
      simp only [if_neg errno.2.1, if_neg errno.2.2]
      exact hrest _ _ (.unknown errno) hwatches (by rw [halive]; rfl) fun hs => by cases hs
    | none =>
      simp only
      cases hsignalable : (c.evolve choice).signalable with
      | true => exact hrest _ _ .aliveReachable hwatches (by rw [halive]; rfl) fun hs => by cases hs
      | false =>
        exact hrest _ _ .aliveUnreachable hwatches (by rw [halive]; rfl) fun _ => hsignalable

/-- A signal is sent to a group with members. -/
theorem guarded_signalGroup (h : w.Watches pid c) (halive : c.alive = true) (signal : ℕ)
    {f : Except ℤ Unit → OsProg α}
    (hrest : ∀ w c o, w.Watches pid c →
      Guards spec post (f o) w) :
    Guards spec post (signalGroup pid.val signal >>= f) w := by
  have hpermits : w.Permits spec (.killpg pid.val signal) := ⟨c, h.1, by rw [h.2.1], .inr halive⟩
  refine Prog.guarded_bind (Prog.guarded_perform_bind hpermits fun choice => ?_)
  have hwatches : (w.evolve choice).Watches pid (c.evolve choice) := watches_evolve h
  cases (w.serve choice (.killpg pid.val signal)).1 with
  | none => exact hrest _ _ _ hwatches
  | some errno =>
    simp only
    split_ifs
    · exact hrest _ _ _ hwatches
    · exact hrest _ _ _ hwatches

/-- A bounded wait is no end of the command's own. -/
theorem guarded_waitCapped (h : w.Watches pid c) {f : Unit → OsProg α}
    (hrest : ∀ w c, w.Watches pid c → Guards spec post (f ()) w) :
    Guards spec post (os .waitCapped >>= f) w := by
  refine Prog.guarded_perform_bind trivial fun choice => ?_
  have hwatches : (w.evolve choice).Watches pid (c.evolve choice) := watches_evolve h
  simp only [World.serve]
  split_ifs
  · refine hrest _ { c.evolve choice with waited := true } ⟨?_, hwatches.2.1, hwatches.2.2⟩
    rw [World.reap, hwatches.1]
    simp
  · exact hrest _ _ hwatches

theorem guarded_sleep (h : w.Watches pid c) (millis : ℕ) {f : Unit → OsProg α}
    (hrest : ∀ w c, w.Watches pid c → Guards spec post (f ()) w) :
    Guards spec post (os (.sleep millis) >>= f) w :=
  guarded_evolving trivial (fun _ => rfl) fun _ => hrest _ _ (watches_evolve h)

/-- The time of grace passes. -/
theorem guarded_awaitGrace (h : w.Watches pid c) (rounds : ℕ) :
    Guards spec (fun w _ => ∃ c, w.Watches pid c)
      (awaitGrace pid.val rounds) w := by
  induction rounds generalizing w c with
  | zero => exact ⟨c, h⟩
  | succ rounds ih =>
    refine guarded_evolving trivial (fun _ => rfl) fun choice => ?_
    have hwatches : (w.evolve choice).Watches pid (c.evolve choice) := watches_evolve h
    cases (w.serve choice .graceLeft).1 with
    | false => exact ⟨_, hwatches⟩
    | true =>
      refine guarded_probeGroup hwatches fun w c s hwatches _ _ => ?_
      cases s.isGone with
      | true => exact ⟨c, hwatches⟩
      | false => exact guarded_sleep hwatches 50 fun w c hwatches => ih hwatches

/-- What is killed after the time of grace is alive. -/
theorem guarded_killSurvivors (h : w.Watches pid c) :
    Guards spec (fun w _ => ∃ c, w.Watches pid c)
      (killSurvivors pid.val) w := by
  refine guarded_probeGroup h fun w c s hwatches hgone _ => ?_
  cases hs : s.isGone with
  | true => exact ⟨c, hwatches⟩
  | false =>
    have halive : c.alive = true := by simpa [hs] using hgone
    refine guarded_signalGroup hwatches halive sigkill fun w c o hwatches => ?_
    exact guarded_sleep hwatches 200 fun w c hwatches =>
      guarded_waitCapped hwatches fun w c hwatches => ⟨c, hwatches⟩

/-- Root is sent for where the group has members and the daemon may signal none of them. -/
theorem guarded_privilegedReap (h : w.Watches pid c) (halive : c.alive = true)
    (hsignalable : c.signalable = false) (program : String) (args : List String) :
    Guards spec (fun w _ => ∃ c, w.Watches pid c)
      (privilegedReap pid.val program args) w := by
  have hpermits : w.Permits spec (.sudo (reapCommand pid.val program args)) := by
    refine ⟨c, h.1, halive, .inl ⟨hsignalable, ?_⟩⟩
    rw [reapCommand, h.2.1]
    split_ifs
    · exact .inl rfl
    · exact .inr rfl
  refine guarded_evolving hpermits (fun _ => rfl) fun choice => ?_
  have hwatches : (w.evolve choice).Watches pid (c.evolve choice) := watches_evolve h
  cases isRpmOstreeAction program args with
  | true => exact ⟨_, hwatches⟩
  | false =>
    refine guarded_sleep hwatches 300 fun w c hwatches => ?_
    refine guarded_probeGroup hwatches fun w c s hwatches hgone _ => ?_
    cases hs : s.isGone with
    | true => exact ⟨c, hwatches⟩
    | false =>
      have halive : c.alive = true := by simpa [hs] using hgone
      refine Prog.guarded_perform ?_ fun choice => ⟨_, watches_evolve hwatches⟩
      exact ⟨c, hwatches.1, halive, .inr (by rw [hwatches.2.1])⟩

theorem guarded_escalate (h : w.Watches pid c) (program : String) (args : List String) :
    Guards spec (fun w _ => ∃ c, w.Watches pid c)
      (escalate pid.val program args) w := by
  refine guarded_probeGroup h fun w c s hwatches hgone hunreachable => ?_
  by_cases hs : s = .aliveUnreachable
  · have halive : c.alive = true := by simpa [hs, GroupState.isGone] using hgone
    rw [if_pos hs]
    refine (guarded_privilegedReap hwatches halive (hunreachable hs) program args).bind
      fun w _ hw => ?_
    obtain ⟨c, hwatches⟩ := hw
    exact guarded_sleep hwatches 200 fun w c hwatches =>
      guarded_waitCapped hwatches fun w c hwatches => ⟨c, hwatches⟩
  · rw [if_neg hs]
    exact ⟨c, hwatches⟩

/-! ### The verdict -/

/-- What a result says about the command, in the world it is reported in. -/
structure Verdict (timeoutSecs : ℕ) (w : World) (result : ExecutionResult) : Prop where
  /-- Unless the report is that it may still be running, the command is over. -/
  isOver : mayStillBeRunning result = false → w.Over
  /-- If it is, the command has not ended on its own, and the group it names has members. -/
  running : mayStillBeRunning result = true → ∃ c program, w.child = some c ∧
    c.exited = false ∧ c.alive = true ∧
      result = .error (.actionNotStopped program c.pid.val timeoutSecs)

/-- The error a cause is reported as says that the action was stopped. -/
theorem mayStillBeRunning_intoError (program : String) (timeoutSecs : ℕ) (cause : StopCause) :
    mayStillBeRunning (.error (cause.intoError program timeoutSecs)) = false := by
  cases cause with
  | timeout => rfl
  | unreadable error => rfl

/-- Any other result, once the command is over. -/
theorem verdict_of_over {timeoutSecs : ℕ} {result : ExecutionResult} (hw : w.Over)
    (hresult : mayStillBeRunning result = false) : Verdict timeoutSecs w result := by
  refine ⟨fun _ => hw, fun h => ?_⟩
  rw [hresult] at h
  cases h

theorem guarded_stopVerdict (h : w.Watches pid c) (program : String) (timeoutSecs : ℕ)
    (cause : StopCause) : Guards spec
      (fun w e => Verdict timeoutSecs w (.error e))
      (stopVerdict pid.val program timeoutSecs cause) w := by
  refine guarded_probeGroup h fun w c s hwatches hgone _ => ?_
  obtain ⟨hchild, hpid, hexited⟩ := hwatches
  have halive (hs : s.isGone = false) :
      Verdict timeoutSecs w (.error (.actionNotStopped program pid.val timeoutSecs)) := by
    have halive : c.alive = true := by simpa [hs] using hgone
    refine ⟨fun h => (by cases h), fun _ => ⟨c, program, hchild, hexited, halive, ?_⟩⟩
    rw [hpid]
  cases s with
  | gone =>
    have hdead : c.alive = false := by simpa [GroupState.isGone] using hgone
    refine verdict_of_over (fun c' hc' => ?_) (mayStillBeRunning_intoError _ _ _)
    obtain rfl := Option.some.inj (hchild.symm.trans hc')
    exact .inr hdead
  | aliveReachable => exact halive rfl
  | aliveUnreachable => exact halive rfl
  | unknown errno => exact halive rfl

/-- The command was spawned and not waited for. -/
def World.Running (w : World) : Prop :=
  ∃ c, w.child = some c ∧ c.waited = false ∧ c.exited = false

theorem running_evolve (h : w.Running) (choice : OsChoice) : (w.evolve choice).Running := by
  obtain ⟨c, hc, hwaited, hexited⟩ := h
  exact ⟨c.evolve choice, by rw [World.child_evolve, hc]; rfl, by rw [Child.waited_evolve, hwaited],
    by rw [Child.exited_evolve, hexited]⟩

theorem guarded_killAndReap (h : w.Running) (program : String) (args : List String)
    (timeoutSecs : ℕ) (cause : StopCause) : Guards spec
      (fun w e => Verdict timeoutSecs w (.error e))
      (killAndReap program args timeoutSecs cause) w := by
  obtain ⟨c, hc, hwaited, hexited⟩ := h
  refine guarded_evolving trivial (fun _ => rfl) fun choice => ?_
  have hid : (w.serve choice .childId).1 = some c.pid.val := by
    simp only [World.serve, hc, Option.filter_some, hwaited, Bool.not_false, if_true,
      Option.map_some]
  rw [hid]
  have hwatches : (w.evolve choice).Watches c.pid (c.evolve choice) :=
    watches_evolve ⟨hc, rfl, hexited⟩
  have hunwaited : (c.evolve choice).waited = false := by rw [Child.waited_evolve, hwaited]
  refine guarded_evolving ⟨_, hwatches.1, hunwaited⟩ (fun _ => rfl) fun choice' => ?_
  -- a command that was not waited for is a member of its group
  have halive : ((c.evolve choice).evolve choice').alive = true := by
    rw [Child.alive, Child.waited_evolve, hunwaited]
    rfl
  refine guarded_signalGroup (watches_evolve hwatches) halive sigterm fun w c' o hwatches => ?_
  refine guarded_waitCapped hwatches fun w c' hwatches => ?_
  refine (guarded_awaitGrace hwatches graceRounds).bind fun w _ hw => ?_
  obtain ⟨c', hwatches⟩ := hw
  refine (guarded_killSurvivors hwatches).bind fun w _ hw => ?_
  obtain ⟨c', hwatches⟩ := hw
  refine (guarded_escalate hwatches program args).bind fun w _ hw => ?_
  obtain ⟨c', hwatches⟩ := hw
  exact guarded_stopVerdict hwatches program timeoutSecs cause

/-! ### Whole executions -/

theorem guarded_readLines (h : w.Running) (lines : ℕ) (stdout : String) :
    Guards spec (fun w _ => w.Running) (readLines lines stdout) w := by
  induction lines generalizing w stdout with
  | zero => exact h
  | succ lines ih =>
    refine guarded_evolving trivial (fun _ => rfl) fun choice => ?_
    have hrunning := running_evolve h choice
    cases (w.serve choice .nextLine).1 with
    | line text =>
      by_cases htext : text = ""
      · simp only [if_pos htext]
        exact ih hrunning _
      · simp only [if_neg htext]
        exact guarded_evolving trivial (fun _ => rfl) fun choice' =>
          ih (running_evolve hrunning choice') _
    | eof => exact hrunning
    | failed error => exact hrunning
    | elapsed => exact hrunning

/-- What was awaited has exited, or still runs for all that is known. -/
theorem guarded_awaitExit (h : w.Running) : Guards spec
    (fun w r => (∀ cause, r = .error cause → w.Running) ∧ (∀ code, r = .ok code → w.Over))
    awaitExit w := by
  refine Prog.guarded_perform_bind trivial fun choice => ?_
  have hrunning := running_evolve h choice
  simp only [World.serve]
  cases choice.waited with
  | exited code =>
    refine ⟨fun cause hcause => (by cases hcause), fun _ _ c hc => .inl ?_⟩
    obtain ⟨c', -, rfl⟩ := Option.map_eq_some_iff.mp hc
    rfl
  | failed error => exact ⟨fun _ _ => hrunning, fun code hcode => by cases hcode⟩
  | elapsed => exact ⟨fun _ _ => hrunning, fun code hcode => by cases hcode⟩

/-- A call that leaves the command alone, when it is over, and something that makes of the answer
a result. -/
theorem guarded_last {op : OsCall} {f : op.Answer → OsProg ExecutionResult} {timeoutSecs : ℕ}
    (hw : w.Over) (hop : w.Permits spec op)
    (hserve : ∀ choice, (w.serve choice op).2 = w.evolve choice)
    (hrest : ∀ answer w, w.Over →
      Guards spec (Verdict timeoutSecs) (f answer) w) :
    Guards spec (Verdict timeoutSecs) (os op >>= f) w :=
  guarded_evolving hop hserve fun _ => hrest _ _ (over_evolve hw)

/-- A spawned command runs, and one that could not be spawned leaves the last one as it is. -/
theorem guarded_spawn {timeoutSecs : ℕ} (hw : w.Over) {program : String} {args : List String}
    (hspec : spec.mechanism = .command program args)
    {f : Except String Unit → OsProg ExecutionResult}
    (herror : ∀ error w, w.Over →
      Guards spec (Verdict timeoutSecs) (f (.error error)) w)
    (hrest : ∀ w, w.Running →
      Guards spec (Verdict timeoutSecs) (f (.ok ())) w) :
    Guards spec (Verdict timeoutSecs)
      (os (.spawn program args) >>= f) w := by
  refine Prog.guarded_perform_bind ⟨hw, hspec⟩ fun choice => ?_
  simp only [World.serve]
  cases choice.spawned with
  | error error => exact herror error _ (over_evolve hw)
  | ok u => exact hrest _ ⟨_, rfl, rfl, rfl⟩

variable (timeoutSecs lines : ℕ)

theorem guarded_executeCommandWithProgress (hw : w.Over) {program : String} {args : List String}
    (hspec : spec.mechanism = .command program args) : Guards spec (Verdict timeoutSecs)
      (executeCommandWithProgress timeoutSecs lines program args) w := by
  refine guarded_spawn hw hspec
    (fun error w hw => verdict_of_over hw rfl) fun w hrunning => ?_
  refine (guarded_readLines hrunning lines "").bind fun w r hrunning => ?_
  cases r with
  | error cause =>
    exact (guarded_killAndReap hrunning program args timeoutSecs cause).bind
      fun w e hverdict => hverdict
  | ok stdout =>
    refine (guarded_awaitExit hrunning).bind fun w r hr => ?_
    cases r with
    | error cause =>
      exact (guarded_killAndReap (hr.1 cause rfl) program args timeoutSecs cause).bind
        fun w e hverdict => hverdict
    | ok exitCode =>
      refine guarded_last (hr.2 exitCode rfl) trivial (fun _ => rfl) fun answer w hw => ?_
      rcases answer with (error | error) | stderr
      · exact verdict_of_over hw rfl
      · exact verdict_of_over hw rfl
      · exact verdict_of_over hw rfl

theorem mayStillBeRunning_readerError (error : TaskError) :
    mayStillBeRunning (.error (readerError error)) = false := by
  cases error with
  | panicked error => rfl
  | io error => rfl

theorem guarded_executeCommand (hw : w.Over) {program : String} {args : List String}
    (hspec : spec.mechanism = .command program args) :
    Guards spec (Verdict timeoutSecs)
      (executeCommand timeoutSecs program args) w := by
  refine guarded_spawn hw hspec
    (fun error w hw => verdict_of_over hw rfl) fun w hrunning => ?_
  refine (guarded_awaitExit hrunning).bind fun w r hr => ?_
  cases r with
  | error cause =>
    exact (guarded_killAndReap (hr.1 cause rfl) program args timeoutSecs cause).bind
      fun w e hverdict => hverdict
  | ok exitCode =>
    refine guarded_last (hr.2 exitCode rfl) trivial (fun _ => rfl) fun answer w hw => ?_
    cases answer with
    | error error => exact verdict_of_over hw (mayStillBeRunning_readerError error)
    | ok stdout =>
      refine guarded_last hw trivial (fun _ => rfl) fun answer w hw => ?_
      cases answer with
      | error error => exact verdict_of_over hw (mayStillBeRunning_readerError error)
      | ok stderr => exact verdict_of_over hw rfl

/-- Reading and changing files spawns nothing. -/
theorem guarded_files (hw : w.Over) (path content search replacement : String) :
    Guards spec (Verdict timeoutSecs) (scanFiles path) w ∧
      Guards spec (Verdict timeoutSecs) (writeFile path content) w ∧
      Guards spec (Verdict timeoutSecs)
        (patchFile path search replacement) w ∧
      Guards spec (Verdict timeoutSecs) (deleteFile path) w := by
  refine ⟨?_, ?_, ?_, ?_⟩
  · refine guarded_last hw trivial (fun _ => rfl) fun answer w hw => ?_
    cases answer with
    | error error => exact verdict_of_over hw rfl
    | ok names => exact verdict_of_over hw rfl
  · refine guarded_last hw trivial (fun _ => rfl) fun answer w hw => ?_
    cases answer with
    | error error => exact verdict_of_over hw rfl
    | ok u =>
      refine guarded_last hw trivial (fun _ => rfl) fun answer w hw => ?_
      cases answer with
      | error error => exact verdict_of_over hw rfl
      | ok u => exact verdict_of_over hw rfl
  · refine guarded_last hw trivial (fun _ => rfl) fun answer w hw => ?_
    cases answer with
    | error error => exact verdict_of_over hw rfl
    | ok content =>
      simp only
      split_ifs
      · exact verdict_of_over hw rfl
      · refine guarded_last hw trivial (fun _ => rfl) fun answer w hw => ?_
        cases answer with
        | error error => exact verdict_of_over hw rfl
        | ok u => exact verdict_of_over hw rfl
  · refine guarded_last hw trivial (fun _ => rfl) fun answer w hw => ?_
    cases answer with
    | error error => exact verdict_of_over hw rfl
    | ok u => exact verdict_of_over hw rfl

theorem guarded_executeSpec (hw : w.Over) :
    Guards spec (Verdict timeoutSecs)
      (executeSpec timeoutSecs spec) w := by
  unfold executeSpec
  cases hspec : spec.mechanism with
  | command program args => exact guarded_executeCommand timeoutSecs hw hspec
  | fileScan path => exact (guarded_files timeoutSecs hw path "" "" "").1
  | fileWrite path content => exact (guarded_files timeoutSecs hw path content "" "").2.1
  | filePatch path search replacement =>
    exact (guarded_files timeoutSecs hw path "" search replacement).2.2.1
  | fileDelete path => exact (guarded_files timeoutSecs hw path "" "" "").2.2.2

theorem guarded_executeWithProgress (hw : w.Over) :
    Guards spec (Verdict timeoutSecs)
      (executeWithProgress timeoutSecs lines spec) w := by
  have hplain : Guards spec (Verdict timeoutSecs) (executeSpec timeoutSecs spec) w :=
    guarded_executeSpec timeoutSecs hw
  unfold executeWithProgress
  split
  · rename_i hspec
    exact guarded_executeCommandWithProgress timeoutSecs lines hw hspec
  · exact hplain

end Guarded

/-! ### Every run -/

/-- The executor's ways to execute an action. -/
inductive Executes (timeoutSecs : ℕ) (spec : ActionSpec) : OsProg ExecutionResult → Prop
  | withProgress (lines : ℕ) :
    Executes timeoutSecs spec (executeWithProgress timeoutSecs lines spec)
  | plain : Executes timeoutSecs spec (executeSpec timeoutSecs spec)

theorem Executes.guarded {timeoutSecs : ℕ} {spec : ActionSpec} {program : OsProg ExecutionResult}
    (h : Executes timeoutSecs spec program) {w : World} (hw : w.Over) :
    Guards spec (Verdict timeoutSecs) program w := by
  cases h with
  | withProgress lines => exact guarded_executeWithProgress timeoutSecs lines hw
  | plain => exact guarded_executeSpec timeoutSecs hw

/-- **The verdict is right.** However the command, its descendants and the kernel behave, an
execution that does not report that the action may still be running leaves it over: it exited
within its deadline, or no process of its group is left. And one that reports it names the group
of the command it spawned, which has members, after a deadline or a failed read. -/
theorem verdict_of_leads {timeoutSecs : ℕ} {spec : ActionSpec} {program : OsProg ExecutionResult}
    (hprogram : Executes timeoutSecs spec program) {w w' : World} (hw : w.Over)
    {result : ExecutionResult} (hrun : Prog.Leads World.serve program w (.pure result) w') :
    Verdict timeoutSecs w' result :=
  (hprogram.guarded hw).ends hrun

/-! ### A command that outruns its deadline -/

theorem over_initial : World.initial.Over := by
  intro c hc
  cases hc

/-- Two processes that the daemon may not signal. -/
def sampleOsChoice : OsChoice where
  reachable := false
  members := [⟨4243, false⟩]
  pid := ⟨4242, by decide, by decide⟩
  spawned := .ok ()
  line := .elapsed
  waited := .elapsed
  output := .ok ""
  strange := none
  foreign := none
  reaped := false
  timeLeft := false
  names := .ok []
  done := .ok ()
  content := .ok ""
  lines := []

def sampleAptUpgrade : ActionSpec where
  actionName := "AptUpgrade"
  mechanism := .command "sudo" ["apt-get", "upgrade", "-y"]
  riskLevel := .high
  rebootRequired := false
  rollbackAvailable := false

/-- The processes stay until root has killed them. -/
def stoppedByRoot : List OsChoice :=
  List.replicate 16 sampleOsChoice ++ List.replicate 3 { sampleOsChoice with
    members := []
    reaped := true }

theorem verdict_of_leads_stoppedByRoot :
    Verdict 7200
      (Prog.drive World.serve stoppedByRoot (executeSpec 7200 sampleAptUpgrade) World.initial).2
      (.error (.io "sudo exceeded the 7200s action timeout and was stopped")) :=
  verdict_of_leads .plain over_initial
    (Prog.leads_drive stoppedByRoot (executeSpec 7200 sampleAptUpgrade) World.initial)

/-! ### What root is asked to do -/

/-- The number of a group, as the daemon spells it for the helper. -/
theorem toList_group (pid : Pid) :
    ("-" ++ toString (pid.val : ℤ)).toList = '-' :: Nat.toDigits 10 pid.val := by
  have hint : toString (pid.val : ℤ) = toString pid.val := rfl
  rw [hint, String.toList_append, toList_toString]
  rfl

/-- The helper takes a negative number for a group. -/
theorem killTarget_group (pid : Pid) :
    ActionSteps.killTarget ("-" ++ toString (pid.val : ℤ)) = .ok (-(pid.val : ℤ)) := by
  obtain ⟨n, hpos, hlt⟩ := pid
  have hdigits : ∀ c ∈ Nat.toDigits 10 n, c.isDigit = true := fun c hc =>
    isDigit_of_mem_toString (n := n) (by rwa [toList_toString])
  have hhead : (Nat.toDigits 10 n).head?.any (fun c => c.isDigit && c != '0') = true := by
    cases htext : Nat.toDigits 10 n with
    | nil => exact absurd htext Nat.toDigits_ne_nil
    | cons c cs =>
      have hzero : c ≠ '0' := by
        rintro rfl
        refine head_toDigits_ne_zero (n := n) (by omega) ?_
        rw [htext, List.head?_cons]
      have hc : c.isDigit = true := hdigits c (by rw [htext]; exact List.mem_cons_self)
      simp [hc, hzero]
  have hlen : ∀ m ∈ some 9, (Nat.toDigits 10 n).length ≤ m + 1 := by
    intro m hm
    obtain rfl := Option.some.inj hm
    have hle := length_toString_le (n := n) (k := 10) (by decide) (by omega)
    rwa [toList_toString] at hle
  have hmatch : ActionSteps.matchesAll ActionSteps.pidPattern ("-" ++ toString (n : ℤ)) = true := by
    rw [ActionSteps.matchesAll, toList_group ⟨n, hpos, hlt⟩]
    refine Pattern.fullmatch_opt_seq.mpr (.inr (Pattern.fullmatch_lit_seq.mpr ⟨_, rfl, ?_⟩))
    exact (Pattern.fullmatch_one_seq_rep fun c hc => (Bool.and_eq_true_iff.mp hc).1).mpr
      ⟨hhead, hdigits, hlen⟩
  have hpid : ActionSteps.pidOf ("-" ++ toString (n : ℤ)) = -(n : ℤ) := by
    rw [ActionSteps.pidOf, toList_group ⟨n, hpos, hlt⟩]
    simp only [Nat.ofDigitChars_ten_toDigits]
  have hbounds : 2 ≤ (-(n : ℤ)).natAbs ∧ (-(n : ℤ)).natAbs ≤ 2 ^ 31 - 1 := by
    rw [Int.natAbs_neg, Int.natAbs_natCast]
    omega
  rw [ActionSteps.killTarget, hmatch, hpid]
  simp only [Bool.not_true, Bool.false_eq_true, if_false]
  refine ActionSteps.orRaise_eq_ok.mpr ⟨?_, rfl⟩
  simp only [Bool.and_eq_true, decide_eq_true_eq]
  exact hbounds

/-- Root signals the group, and does nothing else. -/
def RootSignals (pid : Pid) (signal : String) (args : List String) : Prop :=
  ∃ argv, args = "-n" :: actionStepsPath :: argv ∧
    ActionSteps.main argv = .ok [.kill (-(pid.val : ℤ)) ("SIG" ++ signal)]

theorem rootSignals_rootGroupKillArgv (pid : Pid) {signal : String}
    (hsignal : signal ∈ ActionSteps.signals) :
    RootSignals pid signal (rootGroupKillArgv signal pid.val) := by
  refine ⟨_, rfl, ?_⟩
  rw [ActionSteps.main_signal, ActionSteps.sendSignal, killTarget_group]
  have hcontains : (!ActionSteps.signals.contains signal) = false := by
    rw [Bool.not_eq_false', List.contains_iff_mem]
    exact hsignal
  rw [hcontains]
  rfl

/-- **Signals are aimed.** Whatever happens, the executor spawns nothing but the command of the
action, and signals nothing but the group of the command it spawned last, when that was last seen
with members; and what it has root do is, in the helper's own reading, to signal that group, or else
to cancel the transaction of `rpm-ostree`. The cancellation and the first signal are for a group
that has members of which the daemon may signal none. -/
theorem signals_aimed {timeoutSecs : ℕ} {spec : ActionSpec} {program : OsProg ExecutionResult}
    (hprogram : Executes timeoutSecs spec program) {w w' : World} (hw : w.Over) {op : OsCall}
    {k : op.Answer → OsProg ExecutionResult}
    (hrun : Prog.Leads World.serve program w (.call op k) w') :
    (∀ command args, op = .spawn command args →
      w'.Over ∧ spec.mechanism = .command command args) ∧
    (∀ pgid signal, op = .killpg pgid signal → ∃ c, w'.child = some c ∧ pgid = c.pid.val ∧
      (signal = 0 ∨ c.alive = true)) ∧
    (∀ args, op = .sudo args → ∃ c, w'.child = some c ∧ c.alive = true ∧
      ((c.signalable = false ∧
          (args = ostreeCancelArgv ∨ RootSignals c.pid "TERM" args)) ∨
        RootSignals c.pid "KILL" args)) := by
  have hpermits : w'.Permits spec op := (hprogram.guarded hw).permitted hrun
  refine ⟨fun command args hop => ?_, fun pgid signal hop => ?_, fun args hop => ?_⟩
  · subst hop
    exact hpermits
  · subst hop
    exact hpermits
  · subst hop
    obtain ⟨c, hchild, halive, hargs⟩ := hpermits
    refine ⟨c, hchild, halive, ?_⟩
    rcases hargs with ⟨hsignalable, rfl | rfl⟩ | rfl
    · exact .inl ⟨hsignalable, .inl rfl⟩
    · exact .inl ⟨hsignalable, .inr (rootSignals_rootGroupKillArgv c.pid (by decide))⟩
    · exact .inr (rootSignals_rootGroupKillArgv c.pid (by decide))

/-- Root is sent for when the daemon's own signals have not reached anything. -/
theorem signals_aimed_stoppedByRoot : ∃ c,
    (Prog.drive World.serve (stoppedByRoot.take 12)
      (executeSpec 7200 sampleAptUpgrade) World.initial).2.child = some c ∧ c.alive = true ∧
      ((c.signalable = false ∧
          (rootGroupKillArgv "TERM" 4242 = ostreeCancelArgv ∨
            RootSignals c.pid "TERM" (rootGroupKillArgv "TERM" 4242))) ∨
        RootSignals c.pid "KILL" (rootGroupKillArgv "TERM" 4242)) :=
  (signals_aimed .plain over_initial
    (Prog.leads_drive (stoppedByRoot.take 12) (executeSpec 7200 sampleAptUpgrade)
      World.initial)).2.2 _ rfl

end Sysknife.Executor
