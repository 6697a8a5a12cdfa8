import Sysknife.Postgres.Writes
import Sysknife.Store.Lifecycle

/-!
# A claim against a revocation

`claimApprovedForExecution` looks for the approval in the `UPDATE` of the transaction and marks it
as spent by a later statement, which is not asked how many rows it changed. A revocation only
locks the approval, so it can be committed between the two, and the claim then records an approval
as spent that was taken back (`claimAfterRevoke`). The condition that this does not happen,
`ClaimFindsApproval`, is enough in every interleaving (`no_spend_after_revoke`).
-/

namespace Sysknife.Postgres

open Audit Store

/-! ### Histories -/

/-- After every revocation there is a new grant. -/
def Live (h : List String) : Prop :=
  ∀ pre post, h = pre ++ AuditEventKind.approvalRevoked.asStr :: post →
    AuditEventKind.approvalGranted.asStr ∈ post

/-- Between a revocation and the next time an approval is spent there is a new grant. -/
def SpendsGranted (h : List String) : Prop :=
  ∀ pre mid post, h = pre ++ AuditEventKind.approvalRevoked.asStr ::
      (mid ++ AuditEventKind.approvalConsumed.asStr :: post) →
    AuditEventKind.approvalGranted.asStr ∈ mid

section Histories

variable {h ks : List String} {k : String}

theorem spendsGranted_nil : SpendsGranted [] := by
  intro pre mid post heq
  simp at heq

/-- A list with one more element, split at some element. -/
theorem concat_eq_split {pre post : List String} {q : String} (heq : h ++ [k] = pre ++ q :: post) :
    (h = pre ∧ k = q ∧ post = []) ∨ ∃ post', post = post' ++ [k] ∧ h = pre ++ q :: post' := by
  rcases post.eq_nil_or_concat' with rfl | ⟨post', k', rfl⟩
  · obtain ⟨hinit, hlast⟩ := List.append_inj' heq rfl
    exact .inl ⟨hinit, List.singleton_inj.mp hlast, rfl⟩
  · rw [← List.cons_append, ← List.append_assoc] at heq
    obtain ⟨hinit, hlast⟩ := List.append_inj' heq rfl
    exact .inr ⟨post', by rw [hlast], hinit⟩

theorem live_granted (h : List String) : Live (h ++ [AuditEventKind.approvalGranted.asStr]) := by
  intro pre post heq
  rcases concat_eq_split heq with ⟨-, hk, -⟩ | ⟨post', rfl, -⟩
  · exact absurd hk (by decide)
  · simp

theorem Live.concat (hlive : Live h) (hk : k ≠ AuditEventKind.approvalRevoked.asStr) :
    Live (h ++ [k]) := by
  intro pre post heq
  rcases concat_eq_split heq with ⟨-, hk', -⟩ | ⟨post', rfl, hinit⟩
  · exact absurd hk' hk
  · exact List.mem_append_left _ (hlive pre post' hinit)

theorem Live.append (hlive : Live h) (hks : AuditEventKind.approvalRevoked.asStr ∉ ks) :
    Live (h ++ ks) := by
  induction ks using List.reverseRecOn with
  | nil => simpa using hlive
  | append_singleton ks k ih =>
    rw [List.mem_append, not_or, List.mem_singleton] at hks
    rw [← List.append_assoc]
    exact (ih hks.1).concat (Ne.symm hks.2)

theorem SpendsGranted.concat (hspends : SpendsGranted h)
    (hk : k = AuditEventKind.approvalConsumed.asStr → Live h) : SpendsGranted (h ++ [k]) := by
  intro pre mid post heq
  have hsplit : h ++ [k] = (pre ++ AuditEventKind.approvalRevoked.asStr :: mid) ++
      AuditEventKind.approvalConsumed.asStr :: post := by
    rw [heq, List.append_assoc, List.cons_append]
  rcases concat_eq_split hsplit with ⟨hinit, hlast, -⟩ | ⟨post', -, hinit⟩
  · exact hk hlast pre mid hinit
  · rw [List.append_assoc, List.cons_append] at hinit
    exact hspends pre mid post' hinit

theorem SpendsGranted.append (hspends : SpendsGranted h)
    (hks : AuditEventKind.approvalConsumed.asStr ∉ ks) : SpendsGranted (h ++ ks) := by
  induction ks using List.reverseRecOn with
  | nil => simpa using hspends
  | append_singleton ks k ih =>
    rw [List.mem_append, not_or, List.mem_singleton] at hks
    rw [← List.append_assoc]
    exact (ih hks.1).concat fun hk => absurd hk.symm hks.2

end Histories

/-! ### The condition -/

/-- The approval that a statement of a claim is about to spend. -/
def Statement.spends : Statement → Option String
  | .findUnconsumed t => some t
  | .consumeApproval t _ => some t
  | _ => none

section Claims

variable {store : PgStore}

/-- When a claim comes to spend the approval, the approval is still there. -/
def ClaimFindsApproval (c : store.system.Config) : store.system.Event → Prop
  | .arrive _ => True
  | .act pid choice => ∀ (p : store.system.Process) tx st k t digest executor t',
      c.procs[pid]? = some p → p.request = .claim t digest executor →
      p.program = .call (.exec tx st) k → choice.fault = none → st.spends = some t' →
      ((c.world.view tx).unconsumed t').isSome

/-- The same about the open transactions. -/
def FindsApproval (x : Txns) (tx : TxId) (req : PgRequest) (st : Statement) : Prop :=
  ∀ t digest executor t' g, req = .claim t digest executor → x.opened tx = some (req, g) →
    st.spends = some t' → ((x.committed.writes g.writes).unconsumed t').isSome

/-- Approvals that are spent were granted. -/
structure Spending (x : Txns) : Prop where
  /-- No claim has missed its approval. -/
  found : ∀ {tx t digest executor g}, x.opened tx = some (.claim t digest executor, g) →
    g.missed = false
  /-- An approval that is being spent is there. -/
  present : ∀ {tx req g t at_}, x.opened tx = some (req, g) → .consumeApproval t at_ ∈ g.writes →
    (x.committed.unconsumed t).isSome
  live : ∀ t, (x.committed.unconsumed t).isSome → Live (x.committed.historyOf t)
  spends : ∀ t, SpendsGranted (x.committed.historyOf t)

theorem spending_initial : Spending ⟨.empty, fun _ => none⟩ where
  found h := by cases h
  present h := by cases h
  live t h := by cases h
  spends t := spendsGranted_nil

/-- A statement that finds the approval has not missed it. -/
theorem missed_after {env : StoreEnv} {clock : Clock} {s : PgTables} {g : Work} {st : Statement}
    {result : st.Result} (hrun : st.run env clock s = .ok result)
    (hfound : ∀ t, st.spends = some t → (s.unconsumed t).isSome) :
    (g.after st result).missed = g.missed := by
  cases st with
  | findUnconsumed t =>
    have hresult : result = true := by
      simp only [Statement.run, Except.ok.injEq] at hrun
      rw [← hrun, hfound t rfl]
    simp [Work.after, hresult]
  | consumeApproval t at_ =>
    have hresult : result = 1 := by
      simp only [Statement.run, Except.ok.injEq, hfound t rfl, if_true] at hrun
      exact hrun.symm
    simp [Work.after, hresult, Work.wrote]
  | _ =>
    simp only [Work.after, Work.wrote]
    try split_ifs
    all_goals rfl

/-- A statement keeps the invariant if it does what the condition asks. -/
theorem Spending.runs {env : StoreEnv} {clock : Clock} {x : Txns} {tx : TxId} {req : PgRequest}
    {g : Work} {st : Statement} {result : st.Result} (h : Spending x)
    (hopen : x.opened tx = some (req, g)) (hfits : Fits req g st)
    (hrun : st.run env clock (x.committed.writes g.writes) = .ok result)
    (hrule : FindsApproval x tx req st) :
    Spending ⟨x.committed, Function.update x.opened tx (some (req, g.after st result))⟩ where
  found {tx' t digest executor g'} hopen' := by
    rcases update_eq_some hopen' with ⟨rfl, heq⟩ | ⟨-, hopen''⟩
    · cases heq
      rw [missed_after hrun fun t' => hrule t digest executor t' g rfl hopen]
      exact h.found hopen
    · exact h.found hopen''
  present {tx' req' g' t at_} hopen' hmem := by
    rcases update_eq_some hopen' with ⟨rfl, heq⟩ | ⟨-, hopen''⟩
    · cases heq
      rw [g.after_writes, List.mem_append, Option.mem_toList] at hmem
      rcases hmem with hmem | hmem
      · exact h.present hopen hmem
      · obtain ⟨rfl, hfound⟩ := of_write_consumeApproval hrun hmem
        have hwrites : g.writes = [.setStatus t .running] := hfits
        rw [hwrites, unconsumed_eq_of_approvals
          (approvals_writes _ (by simp [Write.locks]))] at hfound
        exact hfound
    · exact h.present hopen'' hmem
  live := h.live
  spends := h.spends

/-- What a committed transaction adds to one history. -/
theorem Spending.share {x : Txns} {tx : TxId} {req : PgRequest} {g : Work} {t : String}
    (h : Spending x) (hopen : x.opened tx = some (req, g))
    (hshare : Share req g.missed g.lost t g.writes) :
    (((x.committed.writes g.writes).unconsumed t).isSome →
        Live (x.committed.historyOf t ++ kindsOf t g.writes)) ∧
      SpendsGranted (x.committed.historyOf t ++ kindsOf t g.writes) := by
  have hends (hgrants : ∀ w ∈ g.writes, ¬ w.Grants t)
      (hsome : ((x.committed.writes g.writes).unconsumed t).isSome) :
      (x.committed.unconsumed t).isSome ∧ ∀ w ∈ g.writes, ¬ w.Ends t := by
    rcases unconsumed_writes hsome with ⟨w, hw, hgrant⟩ | hkept
    · exact absurd hgrant (hgrants w hw)
    · exact hkept
  cases hshare with
  | nothing hkinds happroval _ =>
    rw [hkinds, List.append_nil, unconsumed_eq_of_approvals (approvals_writes _ happroval)]
    exact ⟨h.live t, h.spends t⟩
  | approve hkinds _ _ =>
    rw [hkinds]
    exact ⟨fun _ => live_granted _, (h.spends t).append (by decide)⟩
  | revoke hkinds hrevokes hgrants _ =>
    rw [hkinds]
    refine ⟨fun hsome => ?_, (h.spends t).append (by decide)⟩
    obtain ⟨w, hw, hend⟩ := hrevokes
    exact absurd hend ((hends hgrants hsome).2 w hw)
  | claim hkinds hspent hgrants _ _ =>
    rcases hspent with ⟨at_, hmem⟩ | ⟨hmissed, digest, executor, rfl⟩
    · have hlive := h.live t (h.present hopen hmem)
      rw [hkinds]
      refine ⟨fun hsome => ?_, ?_⟩
      · exact absurd (.inr ⟨at_, rfl⟩) ((hends hgrants hsome).2 _ hmem)
      · have hspent := ((h.spends t).concat (k := AuditEventKind.approvalConsumed.asStr)
          fun _ => hlive).concat (k := AuditEventKind.statusRunning.asStr)
            fun hk => absurd hk (by decide)
        rwa [List.append_assoc] at hspent
    · rw [h.found hopen] at hmissed
      cases hmissed
  | move st hkinds happroval _ _ =>
    rw [hkinds, unconsumed_eq_of_approvals (approvals_writes _ happroval)]
    refine ⟨fun hsome => (h.live t hsome).append ?_, (h.spends t).append ?_⟩
    · cases st <;> decide
    · cases st <;> decide
  | cancel hkinds hgrants _ _ =>
    refine ⟨fun hsome => ?_, (h.spends t).append fun hmem => ?_⟩
    · obtain ⟨hold, hkept⟩ := hends hgrants hsome
      refine (h.live t hold).append fun hmem => ?_
      rcases hkinds _ hmem with hk | ⟨-, hdelete⟩
      · exact absurd hk (by decide)
      · exact hkept _ hdelete (.inl rfl)
    · rcases hkinds _ hmem with hk | ⟨hk, -⟩ <;> exact absurd hk (by decide)

/-- A commit keeps the invariant. -/
theorem Spending.commits {x : Txns} {tx : TxId} {req : PgRequest} {g : Work} (h : Spending x)
    (hapart : x.Apart) (hopen : x.opened tx = some (req, g))
    (hcomplete : Complete req g.missed g.lost g.writes) :
    Spending ⟨x.committed.writes g.writes, Function.update x.opened tx none⟩ where
  found hopen' := h.found (of_update_none hopen').2
  present {tx' req' g' t at_} hopen' hmem := by
    obtain ⟨hne, hopen''⟩ := of_update_none hopen'
    -- the other transaction holds the approval it is about to spend
    have hfree : ∀ w ∈ g.writes, .approval t ∉ w.locks := by
      intro w hw hl
      exact hapart hne hopen'' hopen _ hmem w hw (.approval t) (by simp [Write.locks]) hl
    rw [unconsumed_eq_of_approvals (approvals_writes _ hfree)]
    exact h.present hopen'' hmem
  live t := by
    rw [historyOf_writes]
    exact (h.share hopen (hcomplete.share t)).1
  spends t := by
    rw [historyOf_writes]
    exact (h.share hopen (hcomplete.share t)).2

theorem Spending.step {env : StoreEnv} {x x' : Txns} (hapart : x.Apart) (h : Spending x)
    (hstep : Txns.Step env FindsApproval x x') : Spending x' := by
  cases hstep with
  | quiet => exact h
  | opens hnone =>
    refine ⟨fun hopen => ?_, fun hopen hmem => ?_, h.live, h.spends⟩
    · rcases update_eq_some hopen with ⟨rfl, heq⟩ | ⟨-, hopen⟩
      · cases heq
        rfl
      · exact h.found hopen
    · rcases update_eq_some hopen with ⟨rfl, heq⟩ | ⟨-, hopen⟩
      · cases heq
        simp at hmem
      · exact h.present hopen hmem
  | runs hopen hfits hrun hfree hrule => exact h.runs hopen hfits hrun hrule
  | ends tx =>
    exact ⟨fun hopen => h.found (of_update_none hopen).2,
      fun hopen => h.present (of_update_none hopen).2, h.live, h.spends⟩
  | commits hopen hcomplete _ => exact h.commits hapart hopen hcomplete

/-- The condition on the run gives the one on the open transactions. -/
theorem findsApproval_of_rule (c : store.system.Config) (x : Txns) (pid : ℕ)
    (p : store.system.Process) (tx : TxId) (st : Statement)
    (k : (PgCall.exec tx st).Answer → Prog PgCall PgCall.Answer Unit) (choice : PgChoice)
    (htracks : Tracks c.world (works c) x) (hp : c.procs[pid]? = some p)
    (hprog : p.program = .call (.exec tx st) k) (hfault : choice.fault = none)
    (hrule : ClaimFindsApproval c (.act pid choice)) (hopen : (work p).Open tx) :
    FindsApproval x tx p.request st := by
  intro t digest executor t' g hreq hopened hspends
  have hpid : works c pid = some (p.request, work p) := by
    rw [works, hp, Option.map_some]
  have hg : g = work p := by
    rw [htracks.opened hpid hopen] at hopened
    exact ((Prod.ext_iff.mp (Option.some.inj hopened)).2).symm
  rw [hg, ← htracks.view_eq hpid hopen]
  exact hrule p tx st k t digest executor t' hp hreq hprog hfault hspends

/-- **An approval that was taken back is not spent without a new grant**, in every interleaving of
operations in which claims find the approval they come to spend. -/
theorem no_spend_after_revoke (events : List store.system.Event)
    (hunblocked : System.Along Unblocked events) (hfinds : System.Along ClaimFindsApproval events)
    (t : String) : SpendsGranted ((store.system.run events).world.committed.historyOf t) := by
  obtain ⟨x, htracks, hx⟩ := txns_induction (Q := FindsApproval) spending_initial
    (fun x x' hapart hx hstep => hx.step hapart hstep) findsApproval_of_rule events
    hunblocked hfinds
  rw [← htracks.committed]
  exact hx.spends t

end Claims

/-! ### Sample runs -/

/-- A store of samples. -/
def sampleStore : PgStore := ⟨sampleEnv, sampleKey⟩

/-- Nothing fails. -/
def smooth : PgChoice := ⟨sampleClock, none, false⟩

/-- The next calls of an operation. -/
def acts (pid calls : ℕ) : List sampleStore.system.Event := List.replicate calls (.act pid smooth)

/-- The test of `Unblocked`. -/
def isUnblocked (c : sampleStore.system.Config) : sampleStore.system.Event → Bool
  | .arrive _ => true
  | .act pid choice => c.procs[pid]?.all fun p =>
      match p.program with
      | .pure _ => true
      | .call call _ => choice.fault.isSome || !c.world.blocked call

theorem unblocked_of_isUnblocked (c : sampleStore.system.Config) (e : sampleStore.system.Event)
    (h : isUnblocked c e = true) : Unblocked c e := by
  cases e with
  | arrive req => trivial
  | act pid choice =>
    intro p call k hp hprog hfault
    simpa [isUnblocked, hp, hprog, hfault] using h

/-- The test of `ClaimFindsApproval`. -/
def findsApproval (c : sampleStore.system.Config) : sampleStore.system.Event → Bool
  | .arrive _ => true
  | .act pid _ => c.procs[pid]?.all fun p =>
      match p.request, p.program with
      | .claim _ _ _, .call (.exec tx st) _ =>
        st.spends.all fun t => ((c.world.view tx).unconsumed t).isSome
      | _, _ => true

theorem claimFindsApproval_of_findsApproval (c : sampleStore.system.Config)
    (e : sampleStore.system.Event) (h : findsApproval c e = true) : ClaimFindsApproval c e := by
  cases e with
  | arrive req => trivial
  | act pid choice =>
    intro p tx st k t digest executor t' hp hreq hprog hfault hspends
    simpa [findsApproval, hp, hreq, hprog, hspends] using h

/-- One transaction is recorded and approved. -/
def approvedRun : List sampleStore.system.Event :=
  .arrive (.record "tx-1" ⟨"req-1", "h1", "UpdateSystem", .high, "Update", [], .admin,
    .uid 1000⟩) ::
    acts 0 6 ++ .arrive (.approve "tx-1" (.uid 1000)) :: acts 1 8

/-- The claim of the approved transaction. -/
def sampleClaim : PgRequest :=
  .claim "tx-1" (approvalCommitment sampleEnv sampleKey "tx-1" "h1") (.uid 1000)

/-- A claim has updated the transaction; a revocation deletes the approval and is committed; the
claim goes on. -/
def claimAfterRevoke : List sampleStore.system.Event :=
  approvedRun ++ .arrive sampleClaim :: acts 2 3 ++
    .arrive (.revoke "tx-1" (.uid 1000)) :: acts 3 9 ++ acts 2 11

/-- The approval that was revoked is spent all the same. -/
theorem claimAfterRevoke_spends : System.Along Unblocked claimAfterRevoke ∧
    (sampleStore.system.run claimAfterRevoke).world.committed.historyOf "tx-1" =
      ["approval_granted", "approval_revoked", "approval_consumed", "status_running"] ∧
    ¬ SpendsGranted
      ((sampleStore.system.run claimAfterRevoke).world.committed.historyOf "tx-1") := by
  have hhistory : (sampleStore.system.run claimAfterRevoke).world.committed.historyOf "tx-1" =
      ["approval_granted", "approval_revoked", "approval_consumed", "status_running"] := by
    decide +kernel
  refine ⟨System.along_of_check unblocked_of_isUnblocked (by decide +kernel), hhistory, ?_⟩
  rw [hhistory]
  intro hspends
  exact absurd (hspends ["approval_granted"] [] ["status_running"] rfl) (by simp)

/-- The revocation comes first, the transaction is approved again, and then claimed. -/
def claimAfterRegrant : List sampleStore.system.Event :=
  approvedRun ++ .arrive (.revoke "tx-1" (.uid 1000)) :: acts 2 9 ++
    .arrive (.approve "tx-1" (.uid 1000)) :: acts 3 9 ++ .arrive sampleClaim :: acts 4 15

/-- The approval that is spent was granted after the revocation. -/
theorem claimAfterRegrant_spends :
    (sampleStore.system.run claimAfterRegrant).world.committed.historyOf "tx-1" =
      ["approval_granted", "approval_revoked", "approval_granted", "approval_consumed",
        "status_running"] ∧
    SpendsGranted
      ((sampleStore.system.run claimAfterRegrant).world.committed.historyOf "tx-1") :=
  ⟨by decide +kernel, no_spend_after_revoke claimAfterRegrant
    (System.along_of_check unblocked_of_isUnblocked (by decide +kernel))
    (System.along_of_check claimFindsApproval_of_findsApproval (by decide +kernel)) "tx-1"⟩

end Sysknife.Postgres
