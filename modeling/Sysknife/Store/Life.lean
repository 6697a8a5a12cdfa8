import Sysknife.Audit.Encoding

/-!
# The life of one transaction

What the transaction stores are for, in the abstract: one transaction has a status and at most
one approval, both only change in the ways of `LifeStep`, and every change leaves its events in
a history. `LifeRun h l` says that a life started at `Life.queued` can have left the history
`h` and be at `l`.

* `LifeRun.runs_once`: a life enters `Running` at most once.
* `LifeRun.spends_once`: at most one approval is spent in a life.
* `LifeRun.grant_before_spend`: an approval is spent only after it was granted and not revoked
  since.
* `LifeRun.newest_status`: the newest status event of a history names the status.

The stores are related to this machine in `Sysknife.Store.Lifecycle`.
-/

namespace Sysknife.Store

open Audit (AuditEventKind)

/-- State of a transaction's single approval. -/
inductive ApprovalState
  | absent
  | granted
  | consumed
  deriving DecidableEq, Repr

/-- Status and approval of one transaction. -/
structure Life where
  status : JobState
  approval : ApprovalState
  deriving DecidableEq, Repr

/-- A freshly recorded transaction. -/
def Life.queued : Life := ⟨.queued, .absent⟩

/-- One change of a life, with the events that record it. -/
inductive LifeStep : Life → List AuditEventKind → Life → Prop
  /-- A queued transaction without an approval is approved. -/
  | grant : LifeStep ⟨.queued, .absent⟩ [.approvalGranted] ⟨.queued, .granted⟩
  /-- An approval that was not spent is taken back, whatever the status. -/
  | revoke (s : JobState) : LifeStep ⟨s, .granted⟩ [.approvalRevoked] ⟨s, .absent⟩
  /-- The approval of a queued transaction is spent to run it. -/
  | claim : LifeStep ⟨.queued, .granted⟩ [.approvalConsumed, .statusRunning] ⟨.running, .consumed⟩
  /-- The status moves along the transition table. -/
  | move {s t : JobState} (a : ApprovalState) (h : s.allowedTransition t = true) :
      LifeStep ⟨s, a⟩ [.ofJobState t] ⟨t, a⟩

/-- The histories a life can have left on its way to `l`. -/
inductive LifeRun : List AuditEventKind → Life → Prop
  | start : LifeRun [] .queued
  | step {h ks : List AuditEventKind} {l l' : Life} (hrun : LifeRun h l)
      (hstep : LifeStep l ks l') : LifeRun (h ++ ks) l'

/-- Consecutive steps. -/
inductive LifePath : Life → List AuditEventKind → Life → Prop
  | refl (l : Life) : LifePath l [] l
  | step {l l' l'' : Life} {ks ks' : List AuditEventKind} (hstep : LifeStep l ks l')
      (hpath : LifePath l' ks' l'') : LifePath l (ks ++ ks') l''

theorem LifeStep.path {l l' : Life} {ks : List AuditEventKind} (h : LifeStep l ks l') :
    LifePath l ks l' := by
  simpa using LifePath.step h (.refl l')

theorem LifeRun.path {h ks : List AuditEventKind} {l l' : Life} (hrun : LifeRun h l)
    (hpath : LifePath l ks l') : LifeRun (h ++ ks) l' := by
  induction hpath generalizing h with
  | refl l => simpa using hrun
  | step hstep _ ih =>
    rw [← List.append_assoc]
    exact ih (hrun.step hstep)

/-- The last decision about the approval in a history is a grant. -/
def LiveGrant (h : List AuditEventKind) : Prop :=
  ∃ a b, h = a ++ .approvalGranted :: b ∧ .approvalRevoked ∉ b

theorem LiveGrant.append {h ks : List AuditEventKind} (hlive : LiveGrant h)
    (hks : .approvalRevoked ∉ ks) : LiveGrant (h ++ ks) := by
  obtain ⟨a, b, rfl, hb⟩ := hlive
  exact ⟨a, b ++ ks, by simp, by simp [hb, hks]⟩

/-- An entry of an extended history is an old one or a new one. -/
theorem mem_of_append_eq_append_cons {α : Type} {h ks pre post : List α} {k : α}
    (heq : h ++ ks = pre ++ k :: post) :
    (∃ b, h = pre ++ k :: b) ∨ ∃ b, pre = h ++ b ∧ ks = b ++ k :: post := by
  rcases List.append_eq_append_iff.mp heq with ⟨b, hpre, hks⟩ | ⟨b, hh, hkpost⟩
  · exact .inr ⟨b, hpre, hks⟩
  · cases b with
    | nil => exact .inr ⟨[], by simpa using hh.symm, by simpa using hkpost.symm⟩
    | cons x b =>
      obtain ⟨rfl, -⟩ := List.cons.inj hkpost
      exact .inl ⟨b, hh⟩

/-! ### Single steps -/

/-- A step keeps the status or moves it along the table. -/
theorem LifeStep.status_eq_or_allowed {l l' : Life} {ks : List AuditEventKind}
    (h : LifeStep l ks l') :
    l'.status = l.status ∨ l.status.allowedTransition l'.status = true := by
  cases h with
  | grant => exact .inl rfl
  | revoke => exact .inl rfl
  | claim => exact .inr rfl
  | move a h => exact .inr h

private theorem ofJobState_ne_approval (t : JobState) :
    AuditEventKind.ofJobState t ≠ .approvalGranted ∧
      AuditEventKind.ofJobState t ≠ .approvalConsumed ∧
      AuditEventKind.ofJobState t ≠ .approvalRevoked := by
  cases t <;> decide

private theorem ofJobState_eq_running {t : JobState} :
    AuditEventKind.ofJobState t = .statusRunning ↔ t = .running := by
  cases t <;> decide

theorem ofJobState_injective {s t : JobState}
    (h : AuditEventKind.ofJobState s = .ofJobState t) : s = t := by
  cases s <;> cases t <;> first | rfl | cases h

/-- Does the event record a status? -/
def isStatus : AuditEventKind → Bool
  | .approvalGranted | .approvalConsumed | .approvalRevoked => false
  | _ => true

theorem isStatus_ofJobState (s : JobState) : isStatus (.ofJobState s) = true := by
  cases s <;> rfl

/-! ### Whole lives -/

namespace LifeRun

variable {h : List AuditEventKind} {l : Life}

/-- The approval state is read off the history. -/
private theorem approval_history (hrun : LifeRun h l) :
    (l.approval ≠ .consumed → h.count .approvalConsumed = 0) ∧
      h.count .approvalConsumed ≤ 1 ∧ (l.approval ≠ .absent → LiveGrant h) := by
  induction hrun with
  | start => exact ⟨fun _ => rfl, Nat.zero_le 1, fun h => absurd rfl h⟩
  | step _ hstep ih =>
    obtain ⟨hnone, hle, hlive⟩ := ih
    cases hstep with
    | grant =>
      have hzero := hnone (by decide)
      exact ⟨fun _ => by simp [hzero], by simp [hzero], fun _ => ⟨_, [], rfl, List.not_mem_nil⟩⟩
    | revoke s =>
      have hzero := hnone (by simp)
      exact ⟨fun _ => by simp [hzero], by simp [hzero], fun h => absurd rfl h⟩
    | claim =>
      have hzero := hnone (by decide)
      exact ⟨fun h => absurd rfl h, by simp [hzero],
        fun _ => (hlive (by decide)).append (by decide)⟩
    | @move s t a _ =>
      obtain ⟨-, hconsumed, hrevoked⟩ := ofJobState_ne_approval t
      have hcount : [AuditEventKind.ofJobState t].count .approvalConsumed = 0 := by
        simp [hconsumed]
      refine ⟨fun ha => ?_, ?_, fun ha => ?_⟩
      · rw [List.count_append, hnone ha, hcount]
      · rw [List.count_append, hcount]
        exact hle
      · exact (hlive ha).append (by simpa using Ne.symm hrevoked)

/-- **At most one approval is spent.** -/
theorem spends_once (hrun : LifeRun h l) : h.count .approvalConsumed ≤ 1 :=
  hrun.approval_history.2.1

/-- While there is an approval, standing or spent, the last decision about it is a grant. -/
theorem liveGrant (hrun : LifeRun h l) (hl : l.approval ≠ .absent) : LiveGrant h :=
  hrun.approval_history.2.2 hl

/-- A transaction that is still queued never ran. -/
private theorem running_history (hrun : LifeRun h l) :
    (l.status = .queued → h.count .statusRunning = 0) ∧ h.count .statusRunning ≤ 1 := by
  induction hrun with
  | start => exact ⟨fun _ => rfl, Nat.zero_le 1⟩
  | step _ hstep ih =>
    obtain ⟨hzero, hle⟩ := ih
    cases hstep with
    | grant => exact ⟨fun h => by simp [hzero h], by simpa using hle⟩
    | revoke s => exact ⟨fun h => by simp [hzero h], by simpa using hle⟩
    | claim =>
      have hzero := hzero rfl
      exact ⟨fun h => by simp at h, by simp [hzero]⟩
    | @move s t a hallowed =>
      refine ⟨fun hq => ?_, ?_⟩
      · simp only at hq
        rw [hq, JobState.not_allowedTransition_queued] at hallowed
        cases hallowed
      · by_cases ht : t = .running
        · subst ht
          have hs := JobState.eq_queued_of_allowedTransition_running hallowed
          simp [hzero hs, AuditEventKind.ofJobState]
        · have hne : AuditEventKind.ofJobState t ≠ .statusRunning := mt ofJobState_eq_running.mp ht
          simpa [hne] using hle

/-- **A life enters `Running` at most once.** -/
theorem runs_once (hrun : LifeRun h l) : h.count .statusRunning ≤ 1 :=
  hrun.running_history.2

/-- **No spending without a standing grant.** Before an approval is spent it was granted, and
not revoked in between. -/
theorem grant_before_spend (hrun : LifeRun h l) {pre post : List AuditEventKind}
    (hsplit : h = pre ++ .approvalConsumed :: post) : LiveGrant pre := by
  induction hrun generalizing pre post with
  | start => simp at hsplit
  | @step h ks l l' hrun hstep ih =>
    rcases mem_of_append_eq_append_cons hsplit with ⟨b, hb⟩ | ⟨b, rfl, hb⟩
    · exact ih hb
    · cases hstep with
      | claim =>
        cases b with
        | nil => simpa using hrun.liveGrant (by decide)
        | cons x b =>
          simp only [List.cons_append, List.cons.injEq] at hb
          cases b <;> simp at hb
      | grant => cases b <;> simp at hb
      | revoke s => cases b <;> simp at hb
      | @move s t a _ =>
        have hne := (ofJobState_ne_approval t).2.1
        cases b <;> simp [hne] at hb

/-- **A queued transaction never spent an approval.** -/
theorem not_spent_of_queued (hrun : LifeRun h l) (hl : l.status = .queued) :
    .approvalConsumed ∉ h := by
  have happroval : l.approval ≠ .consumed := by
    induction hrun with
    | start => decide
    | step _ hstep ih =>
      cases hstep with
      | grant => decide
      | revoke s => exact fun h => by cases h
      | claim => cases hl
      | @move s t a hallowed =>
        -- no move leads back to `Queued`
        simp only at hl
        rw [hl, JobState.not_allowedTransition_queued] at hallowed
        cases hallowed
  exact List.count_eq_zero.mp (hrun.approval_history.1 happroval)

/-- **The newest status event names the status**, and there is none while it is `Queued`. -/
theorem newest_status (hrun : LifeRun h l) :
    (h.filter isStatus).getLast? =
      if l.status = .queued then none else some (.ofJobState l.status) := by
  induction hrun with
  | start => rfl
  | step _ hstep ih =>
    rw [List.filter_append, List.getLast?_append]
    cases hstep with
    | grant => simpa [isStatus] using ih
    | revoke s => simpa [isStatus] using ih
    | claim => simp [isStatus, AuditEventKind.ofJobState]
    | @move s t a hallowed =>
      have hne : t ≠ .queued := by
        rintro rfl
        rw [JobState.not_allowedTransition_queued] at hallowed
        cases hallowed
      simp [isStatus_ofJobState, hne]

/-- **A terminal status is recorded once.** Its event is in the history exactly if it is the
status. -/
theorem count_terminal (hrun : LifeRun h l) {target : JobState}
    (hterminal : target.isTerminal = true) :
    h.count (.ofJobState target) = if l.status = target then 1 else 0 := by
  have hstays := (JobState.isTerminal_iff_no_transition target).mp hterminal
  obtain ⟨hgranted, hconsumed, hrevoked⟩ := ofJobState_ne_approval target
  have hqueued : JobState.queued ≠ target := by
    rintro rfl
    cases hterminal
  have hrunning : JobState.running ≠ target := by
    rintro rfl
    cases hterminal
  induction hrun with
  | start => exact (if_neg hqueued).symm
  | step _ hstep ih =>
    rw [List.count_append, ih]
    cases hstep with
    | grant => simp [hgranted.symm]
    | revoke s => simp [hrevoked.symm]
    | claim =>
      have hkind : AuditEventKind.statusRunning ≠ .ofJobState target := fun heq =>
        hrunning (ofJobState_eq_running.mp heq.symm).symm
      simp [hconsumed.symm, hkind, hqueued, hrunning]
    | @move s t a hallowed =>
      have hs : s ≠ target := by
        rintro rfl
        rw [hstays] at hallowed
        cases hallowed
      by_cases ht : t = target
      · simp [hs, ht]
      · have hkind : AuditEventKind.ofJobState t ≠ .ofJobState target :=
          fun heq => ht (ofJobState_injective heq)
        simp [hs, ht, hkind]

end LifeRun

end Sysknife.Store
