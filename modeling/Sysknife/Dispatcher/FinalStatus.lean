import Sysknife.Dispatcher.Terminal

/-!
# The final status is written once

The final status of a job is written with retries, on a store that can fail in more ways than
one: an attempt can fail and do nothing, and it can do its work and fail all the same
(`Attempt.lost`). The retry after such an attempt finds the status already there and may not
write it again, while a refusal for any other reason has to be reported.

Whatever the store does, and whatever others do to it between the calls, a write that is reported
as done has left the status, and one event that records it (`final_status_once`).
-/

namespace Sysknife.Dispatcher

open Audit Store Tables

/-! ### A store that fails -/

/-- What the outside decides at one call: what others have done to the store by then, and how it
answers. -/
structure Attempt where
  others : List (Clock × StoreOp)
  choice : Choice
  /-- The status is written as far as it can be, and reported as failed. -/
  lost : Option StoreError

/-- The world after others have worked on its store. -/
def World.afterOthers (env : StoreEnv) (w : World) (ops : List (Clock × StoreOp)) : World :=
  { w with store := ops.foldl (fun s op => op.2.apply env op.1 s) w.store }

/-- The answer of a store that fails. -/
def serveFlaky (env : StoreEnv) (w : World) (attempt : Attempt) :
    (c : DaemonCall) → c.Answer × World
  | .updateStatus t status =>
    let served := (w.afterOthers env attempt.others).serve env attempt.choice
      (.updateStatus t status)
    match attempt.lost with
    | some e => (.error e, served.2)
    | none => served
  | c => (w.afterOthers env attempt.others).serve env attempt.choice c

variable {env : StoreEnv} {w w' : World} {t : String} {target : JobState}

theorem lives_afterOthers (hs : Lives w.store) (ops : List (Clock × StoreOp)) :
    Lives (w.afterOthers env ops).store := by
  induction ops using List.reverseRecOn with
  | nil => exact hs
  | append_singleton ops op ih =>
    have hstep : (w.afterOthers env (ops ++ [op])).store =
        op.2.apply env op.1 (w.afterOthers env ops).store := by
      simp [World.afterOthers]
    rw [hstep]
    exact (follows_apply ih op.2).lives

/-- Failing does not harm the store. -/
theorem lives_serveFlaky (hs : Lives w.store) (attempt : Attempt) (c : DaemonCall) :
    Lives (serveFlaky env w attempt c).2.store := by
  have hothers : Lives (w.afterOthers env attempt.others).store := lives_afterOthers hs _
  have hserve : Lives ((w.afterOthers env attempt.others).serve env attempt.choice c).2.store :=
    (follows_serve hothers c).lives
  cases c with
  | updateStatus t status =>
    cases hlost : attempt.lost with
    | none =>
      simp only [serveFlaky, hlost]
      exact hserve
    | some e =>
      simp only [serveFlaky, hlost]
      exact hserve
  | _ => exact hserve

/-- A status that is reported as written is there. -/
theorem written_serveFlaky (hs : Lives w.store) {attempt : Attempt}
    (h : (serveFlaky env w attempt (.updateStatus t target)).1 = .ok ()) :
    (serveFlaky env w attempt (.updateStatus t target)).2.store.statusOf t = some target := by
  cases hlost : attempt.lost with
  | none =>
    simp only [serveFlaky, hlost] at h ⊢
    exact (updateStatus_serve (lives_afterOthers hs attempt.others) h).status
  | some e => simp [serveFlaky, hlost] at h

/-- A status that is read is there. -/
theorem read_serveFlaky {attempt : Attempt} {record : TransactionRecord}
    (h : (serveFlaky env w attempt (.get t)).1 = .ok (some record)) :
    (serveFlaky env w attempt (.get t)).2.store.statusOf t = some record.status := by
  obtain ⟨hstore, row, hrow, hstatus, -⟩ := get_serve h
  change ((w.afterOthers env attempt.others).serve env attempt.choice (.get t)).2.store.statusOf t =
    some record.status
  rw [hstore, statusOf, hrow, Option.map_some, hstatus]

/-! ### Attempts -/

/-- An attempt ends with the status in place, or hands the error on. -/
theorem attempt_spec {giveUp : StoreError → Handler (Except StoreError Unit)}
    (hs : Lives w.store)
    (h : Prog.Exec (serveFlaky env) (attemptTerminalStatus t target giveUp) w (.ok ()) w') :
    (Lives w'.store ∧ w'.store.statusOf t = some target) ∨
      ∃ e w₁, Lives w₁.store ∧ Prog.Exec (serveFlaky env) (giveUp e) w₁ (.ok ()) w' := by
  obtain ⟨attempt, h⟩ := h.of_perform_bind
  have hs₁ : Lives (serveFlaky env w attempt (.updateStatus t target)).2.store :=
    lives_serveFlaky hs attempt _
  cases hwritten : (serveFlaky env w attempt (.updateStatus t target)).1 with
  | ok u =>
    rw [hwritten] at h
    obtain ⟨-, rfl⟩ := h.of_pure
    exact .inl ⟨hs₁, written_serveFlaky hs hwritten⟩
  | error e =>
    rw [hwritten] at h
    obtain ⟨again, h⟩ := h.of_perform_bind
    have hs₂ : Lives (serveFlaky env _ again (.get t)).2.store := lives_serveFlaky hs₁ again _
    split at h
    · -- the record was read: is the status there already?
      rename_i record hread
      split_ifs at h with htarget
      · obtain ⟨-, rfl⟩ := h.of_pure
        exact .inl ⟨hs₂, by rw [read_serveFlaky hread, htarget]⟩
      · exact .inr ⟨e, _, hs₂, h⟩
    · exact .inr ⟨e, _, hs₂, h⟩

/-- Whatever the number of retries, success means that the status is in place. -/
theorem retry_spec {retries : ℕ} (hs : Lives w.store)
    (h : Prog.Exec (serveFlaky env) (retryTerminalStatus t target retries) w (.ok ()) w') :
    Lives w'.store ∧ w'.store.statusOf t = some target := by
  induction retries generalizing w with
  | zero =>
    rcases attempt_spec hs h with hdone | ⟨e, w₁, -, hfailed⟩
    · exact hdone
    · obtain ⟨hok, -⟩ := hfailed.of_pure
      cases hok
  | succ retries ih =>
    rcases attempt_spec hs h with hdone | ⟨e, w₁, hs₁, hretry⟩
    · exact hdone
    · exact ih hs₁ hretry

/-- **Exactly once.** If writing a terminal status is reported as done, the transaction has that
status and its history one event that says so. -/
theorem final_status_once (env : StoreEnv) (ops : List (Clock × StoreOp)) (w w' : World)
    (t : String) (target : JobState) (hw : w.store = run env ops)
    (hterminal : target.isTerminal = true)
    (h : Prog.Exec (serveFlaky env) (updateTerminalStatus t target) w (.ok ()) w') :
    w'.store.statusOf t = some target ∧
      (w'.store.historyOf t).count (AuditEventKind.ofJobState target).asStr = 1 := by
  obtain ⟨hs, hstatus⟩ := retry_spec (hw ▸ lives_run env ops) h
  obtain ⟨kinds, hhistory, hrun⟩ := livesAt_of_status (hs.lives t) hstatus
  refine ⟨hstatus, ?_⟩
  rw [hhistory, List.count_map_of_injective kinds _
    (fun _ _ => AuditEventKind.asStr_injective), hrun.count_terminal hterminal]
  exact if_pos rfl

/-- The second attempt at a sample write finds out what became of the first. -/
def sampleAttempt (lost : Option StoreError) : Attempt := ⟨[], sampleChoice, lost⟩

/-- A write that was done and lost is recognised by the status it left. -/
theorem exec_of_lost {e : StoreError} {record : TransactionRecord} {w₁ : World}
    (hw₁ : (serveFlaky env w (sampleAttempt (some e)) (.updateStatus t target)).2 = w₁)
    (hget : w₁.store.get t = some record) (hstatus : record.status = target) :
    Prog.Exec (serveFlaky env) (updateTerminalStatus t target) w (.ok ()) w₁ := by
  refine .call (sampleAttempt (some e)) ?_
  rw [hw₁]
  refine .call (sampleAttempt none) ?_
  have hread : (serveFlaky env w₁ (sampleAttempt none) (.get t)).1 = .ok (some record) :=
    congrArg Except.ok hget
  rw [hread]
  change Prog.Exec (serveFlaky env) (if record.status = target then
    (Prog.pure (Except.ok ()) : Handler (Except StoreError Unit)) else _) w₁ _ w₁
  rw [if_pos hstatus]
  exact Prog.Exec.pure _ w₁

/-- The write is lost after it was done, and the status is found in place. -/
theorem final_status_once_lost : ∃ w' : World, w'.store.statusOf "tx-1" = some .succeeded ∧
    (w'.store.historyOf "tx-1").count (AuditEventKind.ofJobState .succeeded).asStr = 1 := by
  let w : World := ⟨run sampleEnv sampleOps, fun _ => none⟩
  let w₁ := (serveFlaky sampleEnv w (sampleAttempt (some (.sqlite "disk I/O error")))
    (.updateStatus "tx-1" .succeeded)).2
  have hstatus : w₁.store.statusOf "tx-1" = some .succeeded := by decide +kernel
  obtain ⟨row, hrow, hsucceeded⟩ := Option.map_eq_some_iff.mp hstatus
  have hexec : Prog.Exec (serveFlaky sampleEnv) (updateTerminalStatus "tx-1" .succeeded) w
      (.ok ()) w₁ :=
    exec_of_lost rfl (by rw [Tables.get, hrow]; rfl) hsucceeded
  have hw : w.store = run sampleEnv sampleOps := by simp only [w]
  exact ⟨w₁, final_status_once sampleEnv sampleOps w w₁ "tx-1" .succeeded hw rfl hexec⟩

end Sysknife.Dispatcher
