import Sysknife.Dispatcher.Exclusive
import Sysknife.Store.Effects

/-!
# Executions come to an end

A transaction is claimed by one request, which alone decides what becomes of it: while the
request is under way the transaction is running, and once it has written a status, that status
stands (`Claims`). So what a finished execution leaves behind is read off its conduct: a terminal
status exactly when the re-checks of its action passed. A request whose re-check fails returns
with its transaction still running.
-/

namespace Sysknife.Dispatcher

open Audit Store Tables

/-! ### The store behind the calls -/

section Serve

variable {env : StoreEnv} {w : World} {choice : Choice}

/-- A database transaction fails and changes nothing, or commits. -/
theorem commit_cases {α : Type} (w : World) (choice : Choice)
    (operation : Tables → Except StoreError (α × Tables)) :
    (∃ e, w.commit choice operation = (.error e, w)) ∨
      ∃ a s, operation w.store = .ok (a, s) ∧
        w.commit choice operation = (.ok a, { w with store := s }) := by
  unfold World.commit
  split
  · exact .inl ⟨_, rfl⟩
  · split
    · exact .inl ⟨_, rfl⟩
    · exact .inr ⟨_, _, ‹_›, rfl⟩

/-- What is answered was committed. -/
theorem commit_ok {α : Type} {operation : Tables → Except StoreError (α × Tables)} {a : α}
    (h : (w.commit choice operation).1 = .ok a) :
    ∃ s, operation w.store = .ok (a, s) ∧ (w.commit choice operation).2.store = s := by
  rcases commit_cases w choice operation with ⟨e, heq⟩ | ⟨a', s, hop, heq⟩
  · rw [heq] at h
    cases h
  · rw [heq] at h ⊢
    obtain rfl := Except.ok.inj h
    exact ⟨s, hop, rfl⟩

/-- What holds of the store and of everything an operation makes of it holds afterwards. -/
theorem commit_induction {α : Type} {operation : Tables → Except StoreError (α × Tables)}
    {Q : Tables → Prop} (hkept : Q w.store)
    (hcommitted : ∀ a s, operation w.store = .ok (a, s) → Q s) :
    Q (w.commit choice operation).2.store := by
  rcases commit_cases w choice operation with ⟨e, heq⟩ | ⟨a, s, hop, heq⟩
  · rw [heq]
    exact hkept
  · rw [heq]
    exact hcommitted a s hop

theorem read_store {α : Type} (w : World) (query : Tables → α) :
    (w.read choice query).2.store = w.store := by
  unfold World.read
  split <;> rfl

/-- The lives of the transactions go on whatever is called. -/
theorem follows_serve (hs : Lives w.store) (op : DaemonCall) :
    Follows w.store (w.serve env choice op).2.store := by
  have hkept : Follows w.store w.store := ⟨hs, .refl, fun _ ht => .inl ht⟩
  have hfollows {α : Type} {operation : Tables → Except StoreError (α × Tables)} (storeOp : StoreOp)
      (happly : storeOp.apply env choice.clock w.store = committed w.store (operation w.store)) :
      Follows w.store (w.commit choice operation).2.store := by
    refine commit_induction (Q := fun s => Follows w.store s) hkept fun a s hop => ?_
    have hstep : Follows w.store (storeOp.apply env choice.clock w.store) :=
      follows_apply hs storeOp
    rwa [happly, hop] at hstep
  cases op with
  | get | getPreview | fetchChainRow => exact (read_store w _).symm ▸ hkept
  | recordPreviewed tx preview => exact hfollows (.recordPreviewed choice.uuid tx preview) rfl
  | approveTransaction t approver => exact hfollows (.approve t approver) rfl
  | revokeUnconsumedApproval t revoker => exact hfollows (.revoke t revoker) rfl
  | claimApprovedForExecution t digest executor => exact hfollows (.claim t digest executor) rfl
  | updateStatus t status => exact hfollows (.updateStatus t status) rfl
  | cancelQueued t canceller => exact hfollows (.cancelQueued t canceller) rfl
  | cleanupStaleQueued => exact hfollows .cleanup rfl
  | enterGate own claims requestHash =>
    simp only [World.serve]
    split <;> exact hkept
  | _ => exact hkept

/-- A terminal status stays. -/
theorem terminal_serve {t : String} {st : JobState} (hs : Lives w.store) (op : DaemonCall)
    (hst : w.store.statusOf t = some st) (hterminal : st.isTerminal = true) :
    (w.serve env choice op).2.store.statusOf t = some st := by
  obtain ⟨st', hst', rfl | ⟨hallowed, -⟩⟩ := (follows_serve hs op).moves t st hst
  · exact hst'
  · rw [(JobState.isTerminal_iff_no_transition st).mp hterminal st'] at hallowed
    cases hallowed

/-- Columns and previews change by recording a transaction only. -/
theorem sameRecords_serve {op : DaemonCall}
    (hop : ∀ tx preview, op ≠ .recordPreviewed tx preview) :
    w.store.SameRecords (w.serve env choice op).2.store := by
  have hcommit {α : Type} {operation : Tables → Except StoreError (α × Tables)}
      (h : ∀ a s, operation w.store = .ok (a, s) → w.store.SameRecords s) :
      w.store.SameRecords (w.commit choice operation).2.store :=
    commit_induction (Q := fun s => w.store.SameRecords s) (.refl _) h
  cases op with
  | get | getPreview | fetchChainRow => exact (read_store w _).symm ▸ .refl _
  | recordPreviewed tx preview => exact absurd rfl (hop tx preview)
  | approveTransaction => exact hcommit fun _ _ => sameRecords_approve
  | revokeUnconsumedApproval =>
    refine hcommit fun _ _ h => ?_
    obtain ⟨key, h⟩ := exists_revokeInTx h
    exact sameRecords_revokeInTx h
  | claimApprovedForExecution => exact hcommit fun _ _ => sameRecords_claim
  | updateStatus => exact hcommit fun _ _ => sameRecords_updateStatus
  | cancelQueued =>
    refine hcommit fun _ _ h => ?_
    obtain ⟨key, n, h⟩ := exists_cancelInTx h
    exact sameRecords_cancelInTx h
  | cleanupStaleQueued =>
    refine hcommit fun _ _ h => ?_
    obtain ⟨key, ids, h⟩ := exists_cancelEach h
    exact sameRecords_cancelEach h
  | enterGate own claims requestHash =>
    simp only [World.serve]
    split <;> exact .refl _
  | _ => exact .refl _

theorem chainRows_serve {op : DaemonCall} (hop : ∀ tx preview, op ≠ .recordPreviewed tx preview) :
    (w.serve env choice op).2.store.chainRows = w.store.chainRows :=
  (sameRecords_serve hop).chainRows

/-- Grants are appended by approving only. -/
theorem noGrants_serve {op : DaemonCall}
    (hop : ∀ t approver, op ≠ .approveTransaction t approver) :
    NoGrants w.store (w.serve env choice op).2.store := by
  have hkept : NoGrants w.store w.store := .of_events_eq rfl
  have hcommit {α : Type} {operation : Tables → Except StoreError (α × Tables)}
      (h : ∀ a s, operation w.store = .ok (a, s) → NoGrants w.store s) :
      NoGrants w.store (w.commit choice operation).2.store :=
    commit_induction (Q := fun s => NoGrants w.store s) hkept h
  cases op with
  | get | getPreview | fetchChainRow => exact (read_store w _).symm ▸ hkept
  | recordPreviewed =>
    refine hcommit fun _ _ h => ?_
    obtain ⟨-, -, hevents, -⟩ := recordPreviewed_spec h
    exact .of_events_eq hevents
  | approveTransaction t approver => exact absurd rfl (hop t approver)
  | revokeUnconsumedApproval =>
    refine hcommit fun _ _ h => ?_
    obtain ⟨key, h⟩ := exists_revokeInTx h
    exact noGrants_revokeInTx h
  | claimApprovedForExecution => exact hcommit fun _ _ => noGrants_claim
  | updateStatus => exact hcommit fun _ _ => noGrants_updateStatus
  | cancelQueued =>
    refine hcommit fun _ _ h => ?_
    obtain ⟨key, n, h⟩ := exists_cancelInTx h
    exact noGrants_cancelInTx h
  | cleanupStaleQueued =>
    refine hcommit fun _ _ h => ?_
    obtain ⟨key, ids, h⟩ := exists_cancelEach h
    exact noGrants_cancelEach h
  | enterGate own claims requestHash =>
    simp only [World.serve]
    split <;> exact hkept
  | _ => exact hkept

/-- A settled transaction is changed only when its own status is written. -/
theorem same_serve {op : DaemonCall} {t : String} (hs : Lives w.store)
    (hsettled : Settled w.store t)
    (hop : ∀ status, (⟨op, (w.serve env choice op).1⟩ : Call DaemonCall DaemonCall.Answer) ≠
      ⟨.updateStatus t status, .ok ()⟩) :
    Same w.store (w.serve env choice op).2.store t := by
  have hcommit {α : Type} {operation : Tables → Except StoreError (α × Tables)}
      (h : ∀ a s, operation w.store = .ok (a, s) → Same w.store s t) :
      Same w.store (w.commit choice operation).2.store t :=
    commit_induction (Q := fun s => Same w.store s t) .rfl h
  cases op with
  | get | getPreview | fetchChainRow => exact (read_store w _).symm ▸ .rfl
  | recordPreviewed => exact hcommit fun _ _ => same_of_recordPreviewed hs hsettled
  | approveTransaction => exact hcommit fun _ _ => same_of_approve hs hsettled
  | revokeUnconsumedApproval =>
    refine hcommit fun _ _ h => ?_
    obtain ⟨key, h⟩ := exists_revokeInTx h
    exact same_of_revokeInTx hs hsettled h
  | claimApprovedForExecution => exact hcommit fun _ _ => same_of_claim hs hsettled
  | updateStatus t' status =>
    simp only [World.serve] at hop ⊢
    rcases commit_cases w choice (updateStatus env choice.clock t' status) with
      ⟨e, heq⟩ | ⟨u, s, hupdate, heq⟩
    · rw [heq]
      exact .rfl
    · rw [heq] at hop ⊢
      obtain ⟨_, -, -, htouched⟩ := updateStatus_spec hs.keyed hupdate
      exact htouched.frame t fun ht => hop status (by rw [ht])
  | cancelQueued =>
    refine hcommit fun _ _ h => ?_
    obtain ⟨key, n, h⟩ := exists_cancelInTx h
    exact same_of_cancelInTx hs hsettled h
  | cleanupStaleQueued =>
    refine hcommit fun _ _ h => ?_
    obtain ⟨key, ids, h⟩ := exists_cancelEach h
    exact same_of_cancelEach hs hsettled h
  | enterGate own claims requestHash =>
    simp only [World.serve]
    split <;> exact .rfl
  | _ => exact .rfl

end Serve

/-! ### Claims -/

/-- A transaction that a request claimed is running, or as the request left it. -/
structure Claimed (s : Tables) (t : String) (g : Progress) : Prop where
  claimed : g.claimed = true → s.approvalOf t = .consumed ∧
    s.statusOf t = some (g.recorded.getD .running)
  recorded : ∀ st, g.recorded = some st → g.claimed = true ∧ st.isTerminal = true
  /-- A terminal status that was read is there. -/
  found : ∀ tx, g.record = some tx → tx.status.isTerminal = true → s.statusOf t = some tx.status

theorem Claimed.settled {s : Tables} {t : String} {g : Progress} (h : Claimed s t g)
    (hclaimed : g.claimed = true) : Settled s t := by
  obtain ⟨happroval, hstatus⟩ := h.claimed hclaimed
  refine ⟨⟨_, hstatus, ?_⟩, by rw [happroval]; decide⟩
  cases hrecorded : g.recorded with
  | none => simp
  | some st =>
    have hterminal := (h.recorded st hrecorded).2
    rintro rfl
    cases hterminal

theorem Claimed.serve {env : StoreEnv} {w : World} {choice : Choice} {op : DaemonCall} {t : String}
    {g : Progress} (h : Claimed w.store t g) (hs : Lives w.store)
    (hwrite : g.claimed = true → ∀ status,
      (⟨op, (w.serve env choice op).1⟩ : Call DaemonCall DaemonCall.Answer) ≠
        ⟨.updateStatus t status, .ok ()⟩) :
    Claimed (w.serve env choice op).2.store t g := by
  refine ⟨fun hclaimed => ?_, h.recorded, fun tx htx hterminal =>
    terminal_serve hs op (h.found tx htx hterminal) hterminal⟩
  have hsame := same_serve hs (h.settled hclaimed) (hwrite hclaimed)
  rw [hsame.approval, hsame.status]
  exact h.claimed hclaimed

section Acting

variable {d : Daemon} {w : World} {choice : Choice} {req : Request} {g : Progress} {t : String}

/-- A claim that succeeds finds its transaction queued and leaves it running. -/
theorem claim_serve {env : StoreEnv} {digest : String} {executor : CallerPrincipal}
    (hs : Lives w.store)
    (hclaims : (w.serve env choice (.claimApprovedForExecution t digest executor)).1 = .ok true) :
    w.store.statusOf t = some .queued ∧
      Touched w.store (w.serve env choice (.claimApprovedForExecution t digest executor)).2.store t
        ⟨.running, .consumed⟩ [.approvalConsumed, .statusRunning] := by
  obtain ⟨s, hclaim, hstore⟩ := commit_ok hclaims
  rcases claimApprovedForExecution_spec hs.keyed hclaim with ⟨hfalse, -⟩ | ⟨-, hqueued, -, htouched⟩
  · cases hfalse
  · simp only [World.serve, hstore]
    exact ⟨hqueued, htouched⟩

/-- A status that was written is there. -/
theorem updateStatus_serve {env : StoreEnv} {status : JobState} (hs : Lives w.store)
    (hwritten : (w.serve env choice (.updateStatus t status)).1 = .ok ()) :
    Touched w.store (w.serve env choice (.updateStatus t status)).2.store t
      ⟨status, w.store.approvalOf t⟩ [.ofJobState status] := by
  obtain ⟨s, hupdate, hstore⟩ := commit_ok hwritten
  obtain ⟨_, -, -, htouched⟩ := updateStatus_spec hs.keyed hupdate
  simp only [World.serve, hstore]
  exact htouched

/-- What was read is there. -/
theorem get_serve {env : StoreEnv} {tx : TransactionRecord}
    (hread : (w.serve env choice (.get t)).1 = .ok (some tx)) :
    (w.serve env choice (.get t)).2.store = w.store ∧ ∃ row,
      w.store.findTransaction t = some row ∧ row.status = tx.status ∧
        row.actionName = tx.actionName ∧ row.requestHash = tx.requestHash := by
  simp only [World.serve, World.read] at hread ⊢
  split at hread
  · cases hread
  · simp only [Except.ok.injEq, Tables.get, Option.map_eq_some_iff] at hread
    obtain ⟨row, hrow, rfl⟩ := hread
    exact ⟨rfl, row, hrow, rfl, rfl, rfl⟩

/-- What has become of the acting request's transaction after its call. -/
theorem Claimed.next {op : DaemonCall} (h : Claimed w.store t g) (hs : Lives w.store)
    (ht : req.transactionId = some t) (hallowed : Allowed d req g op) :
    Claimed (w.serve d.store choice op).2.store t (g.next op (w.serve d.store choice op).1) := by
  have hclaimed := (g.next_flags op (w.serve d.store choice op).1).2.1
  have hfound (tx : TransactionRecord)
      (htx : (g.next op (w.serve d.store choice op).1).record = some tx)
      (hterminal : tx.status.isTerminal = true) :
      (w.serve d.store choice op).2.store.statusOf t = some tx.status := by
    rcases g.next_record op (w.serve d.store choice op).1 with hsame | ⟨t', tx', hlast, hnew⟩
    · exact terminal_serve hs op (h.found tx (hsame ▸ htx) hterminal) hterminal
    · obtain ⟨rfl, hanswer⟩ := Sigma.mk.inj hlast
      obtain rfl : t = t' := Option.some.inj (ht.symm.trans hallowed)
      obtain rfl := Option.some.inj (hnew.symm.trans htx)
      obtain ⟨hstore, row, hrow, hstatus, -⟩ := get_serve (eq_of_heq hanswer)
      rw [hstore, statusOf, hrow, Option.map_some, hstatus]
  rcases g.next_recorded op (w.serve d.store choice op).1 with
    ⟨hwrite, hsame⟩ | ⟨t', status, hlast, hnew⟩
  · cases hclaims : op.claims (w.serve d.store choice op).1 with
    | false =>
      rw [hclaims, Bool.or_false] at hclaimed
      have hkept : Claimed (w.serve d.store choice op).2.store t g :=
        h.serve hs fun _ => hwrite t
      refine ⟨fun hc => ?_, fun st hst => ?_, hfound⟩
      · rw [hsame]
        exact hkept.claimed (hclaimed ▸ hc)
      · rw [hclaimed]
        exact hkept.recorded st (hsame ▸ hst)
    | true =>
      obtain ⟨t', digest, executor, rfl, hanswer⟩ := claims_eq_true hclaims
      obtain ⟨r, spec, rfl, -, rfl, -, -, hunclaimed, -⟩ := hallowed
      obtain rfl : r.transactionId = t := Option.some.inj ht
      have hnone : g.recorded = none := by
        rw [Option.eq_none_iff_forall_ne_some]
        intro st hst
        rw [(h.recorded st hst).1] at hunclaimed
        cases hunclaimed
      have hclaim := claim_serve hs (eq_of_heq hanswer)
      refine ⟨fun _ => ?_, fun st hst => ?_, hfound⟩
      · rw [hsame, hnone]
        exact ⟨hclaim.2.approval, hclaim.2.status⟩
      · rw [hsame, hnone] at hst
        cases hst
  · obtain ⟨rfl, hanswer⟩ := Sigma.mk.inj hlast
    obtain ⟨r, rfl, rfl, hspent, -, hterminal⟩ := hallowed
    obtain rfl : r.transactionId = t := Option.some.inj ht
    have htouched := updateStatus_serve hs (eq_of_heq hanswer)
    refine ⟨fun _ => ?_, fun st hst => ?_, hfound⟩
    · rw [hnew]
      exact ⟨htouched.approval.trans (h.claimed hspent).1, htouched.status⟩
    · obtain rfl := Option.some.inj (hnew.symm.trans hst)
      exact ⟨by rw [hclaimed, hspent, Bool.true_or], hterminal⟩

end Acting

section Claims

variable {d : Daemon}

/-- **The invariant of the claims.** -/
structure Claims (c : d.system.Config) : Prop where
  lives : Lives c.world.store
  claimed : ∀ (i : ℕ) (p : d.system.Process) t, c.procs[i]? = some p →
    p.request.transactionId = some t → Claimed c.world.store t (progress d p)
  /-- A transaction is claimed once. -/
  once : ∀ (i j : ℕ) (p q : d.system.Process) t, c.procs[i]? = some p → c.procs[j]? = some q →
    p.request.transactionId = some t → q.request.transactionId = some t →
    (progress d p).claimed = true → (progress d q).claimed = true → i = j

theorem claims_initial : Claims (⟨.initial, []⟩ : d.system.Config) where
  lives := .empty
  claimed i p t hp := by simp at hp
  once i j p q t hp := by simp at hp

variable {c : d.system.Config}

theorem Claims.arrive (hc : Claims c) (req : Request) : Claims (c.arrive req) where
  lives := hc.lives
  claimed i p t hp ht := by
    rcases System.getElem?_arrive hp with hp | ⟨-, rfl⟩
    · exact hc.claimed i p t hp ht
    · exact ⟨fun h => (by cases h), fun _ h => (by cases h), fun _ h => (by cases h)⟩
  once i j p q t hp hq htp htq hclaimed hclaimed' := by
    rcases System.getElem?_arrive hp with hp | ⟨-, rfl⟩
    · rcases System.getElem?_arrive hq with hq | ⟨-, rfl⟩
      · exact hc.once i j p q t hp hq htp htq hclaimed hclaimed'
      · cases hclaimed'
    · cases hclaimed

variable {pid : ℕ} {choice : Choice} {p : d.system.Process} {op : DaemonCall}
  {k : op.Answer → Handler Unit}

/-- The world after a call is the one that answered it. -/
theorem world_call : (c.call pid choice p op k).world = (c.world.serve d.store choice op).2 := rfl

/-- A process after a call of `p` is `p` with its call, or another one as it was. -/
theorem process_call {i : ℕ} {q : d.system.Process} (hp : c.procs[pid]? = some p)
    (hq : (c.call pid choice p op k).procs[i]? = some q) :
    (i = pid ∧ q.request = p.request ∧
        q.history = p.history ++ [⟨op, (c.world.serve d.store choice op).1⟩] ∧
        progress d q = (progress d p).next op (c.world.serve d.store choice op).1) ∨
      (i ≠ pid ∧ c.procs[i]? = some q) := by
  by_cases hi : i = pid
  · subst hi
    rw [System.getElem?_call_self hp] at hq
    obtain rfl := Option.some.inj hq
    exact .inl ⟨rfl, rfl, rfl, progress_concat _ _ _ _⟩
  · rw [System.getElem?_call_of_ne hi] at hq
    exact .inr ⟨hi, hq⟩

/-- A transaction that is being claimed was claimed by no process before. -/
theorem Claims.not_claimed (hc : Claims c) (hp : c.procs[pid]? = some p) {t digest : String}
    {executor : CallerPrincipal}
    (hclaims : (c.world.serve d.store choice (.claimApprovedForExecution t digest executor)).1 =
      .ok true) (ht : p.request.transactionId = some t) : (progress d p).claimed = false := by
  rw [Bool.eq_false_iff]
  intro hclaimed
  obtain ⟨st, hst, hne⟩ := ((hc.claimed pid p t hp ht).settled hclaimed).status
  rw [(claim_serve hc.lives hclaims).1] at hst
  exact hne (Option.some.inj hst).symm

theorem Claims.once_call (hc : Claims c) (hp : c.procs[pid]? = some p)
    (hallowed : Allowed d p.request (progress d p) op) (i j : ℕ) (q q' : d.system.Process)
    (t : String) (hq : (c.call pid choice p op k).procs[i]? = some q)
    (hq' : (c.call pid choice p op k).procs[j]? = some q')
    (ht : q.request.transactionId = some t) (ht' : q'.request.transactionId = some t)
    (hclaimed : (progress d q).claimed = true) (hclaimed' : (progress d q').claimed = true) :
    i = j := by
  -- the process that acted did not claim what another one had claimed
  have hacted {j : ℕ} {q q' : d.system.Process} (hreq : q.request = p.request)
      (hprogress : progress d q = (progress d p).next op (c.world.serve d.store choice op).1)
      (ht : q.request.transactionId = some t) (ht' : q'.request.transactionId = some t)
      (hclaimed : (progress d q).claimed = true) (hold : c.procs[j]? = some q')
      (hclaimed' : (progress d q').claimed = true) : pid = j := by
    rw [hreq] at ht
    rw [hprogress, ((progress d p).next_flags op _).2.1, Bool.or_eq_true] at hclaimed
    rcases hclaimed with hclaimed | hclaims
    · exact hc.once pid j p q' t hp hold ht ht' hclaimed hclaimed'
    · obtain ⟨t', digest, executor, rfl, hanswer⟩ := claims_eq_true hclaims
      obtain ⟨r, spec, hreq', -, rfl, -⟩ := hallowed
      rw [hreq'] at ht
      obtain rfl : r.transactionId = t := Option.some.inj ht
      rw [hc.not_claimed hold (eq_of_heq hanswer) ht'] at hclaimed'
      cases hclaimed'
  rcases process_call hp hq with ⟨hi, hreq, -, hprogress⟩ | ⟨-, hold⟩
  · rcases process_call hp hq' with ⟨hj, -⟩ | ⟨-, hold'⟩
    · rw [hi, hj]
    · exact hi.trans (hacted hreq hprogress ht ht' hclaimed hold' hclaimed')
  · rcases process_call hp hq' with ⟨hj, hreq', -, hprogress'⟩ | ⟨-, hold'⟩
    · exact (hj.trans (hacted hreq' hprogress' ht' ht hclaimed' hold hclaimed)).symm
    · exact hc.once i j q q' t hold hold' ht ht' hclaimed hclaimed'

theorem Claims.call (hc : Claims c) (hp : c.procs[pid]? = some p)
    (hallowed : Allowed d p.request (progress d p) op) : Claims (c.call pid choice p op k) where
  lives := (follows_serve hc.lives op).lives
  claimed i q t hq ht := by
    rw [world_call]
    rcases process_call hp hq with ⟨rfl, hreq, -, hprogress⟩ | ⟨hi, hold⟩
    · rw [hreq] at ht
      rw [hprogress]
      exact (hc.claimed i p t hp ht).next hc.lives ht hallowed
    · refine (hc.claimed i q t hold ht).serve hc.lives fun hclaimed status hlast => ?_
      -- only the process that claimed a transaction writes its status
      obtain ⟨rfl, -⟩ := Sigma.mk.inj hlast
      obtain ⟨r, hreq, rfl, hclaimed', -⟩ := hallowed
      exact hi (hc.once i pid q p _ hold hp ht (by rw [hreq]; rfl) hclaimed hclaimed')
  once := hc.once_call hp hallowed

theorem claims_run (events : List d.system.Event) : Claims (d.system.run events) :=
  daemon_induction (R := fun _ _ => True) claims_initial (fun _ req hc => hc.arrive req)
    (fun _ _ _ _ _ _ hc _ hp _ hallowed => hc.call hp hallowed) events fun _ _ _ _ => trivial

/-- **What an execution leaves behind.** When an `execute` request has returned after its claim,
and not every attempt to write its status failed, the transaction has a terminal status exactly if
the re-checks of the action passed, and is still running otherwise. -/
theorem terminal_iff_recheckPasses (events : List d.system.Event) (i : ℕ) (p : d.system.Process)
    (r : ExecuteRequest) (hp : (d.system.run events).procs[i]? = some p)
    (hreq : p.request = .execute r) (hdone : p.program = .pure ())
    (hclaimed : (progress d p).claimed = true)
    (hwritten : (progress d p).failedWrites < terminalStatusRetryAttempts) :
    ((∃ st, (d.system.run events).world.store.statusOf r.transactionId = some st ∧
        st.isTerminal = true) ↔
      RecheckPasses d r (progress d p).preview (progress d p).live) ∧
    (¬ RecheckPasses d r (progress d p).preview (progress d p).live →
      (d.system.run events).world.store.statusOf r.transactionId = some .running) := by
  have hkept := (claims_run events).claimed i p r.transactionId hp (by rw [hreq]; rfl)
  have hstatus := (hkept.claimed hclaimed).2
  have hrecords : (progress d p).recorded.isSome = true ↔
      RecheckPasses d r (progress d p).preview (progress d p).live := by
    rcases (done_of_returned events hp hdone).records r hreq hclaimed with
      hgaveUp | ⟨hnone, tx, htx, hterminal⟩ | hrecords
    · exact absurd hgaveUp (Nat.not_le.mpr hwritten)
    · -- nothing was written, so the record cannot have been found in a terminal status
      rw [hkept.found tx htx hterminal, hnone] at hstatus
      rw [Option.some.inj hstatus] at hterminal
      cases hterminal
    · exact hrecords
  rw [hstatus, ← hrecords]
  cases hrecorded : (progress d p).recorded with
  | none => simp [JobState.isTerminal]
  | some st => simpa using (hkept.recorded st hrecorded).2

end Claims

/-! ### Sample runs -/

/-- A process serves the request that arrived in its place. -/
theorem request_of_arrival {d : Daemon} {events : List d.system.Event} {i : ℕ}
    {p : d.system.Process} (hp : (d.system.run events).procs[i]? = some p) {req : Request}
    (hreq : (System.arrivals events)[i]? = some req) : p.request = req := by
  rw [← System.requests_run, List.getElem?_map, hp, Option.map_some] at hreq
  exact Option.some.inj hreq

/-- Nothing is left of the program. -/
def returned : Handler Unit → Bool
  | .pure _ => true
  | .call _ _ => false

theorem eq_pure_of_returned {program : Handler Unit} (h : returned program = true) :
    program = .pure () := by
  cases program with
  | pure a => rfl
  | call op k => cases h

/-- A process that returned after its claim, with no failed writes, is read off its flags. -/
theorem returned_of_flags {d : Daemon} (events : List d.system.Event) (i : ℕ)
    (h : ((d.system.run events).procs[i]?.map fun p =>
      (returned p.program, (progress d p).claimed, (progress d p).failedWrites)) =
        some (true, true, 0)) :
    ∃ p, (d.system.run events).procs[i]? = some p ∧ p.program = .pure () ∧
      (progress d p).claimed = true ∧
      (progress d p).failedWrites < terminalStatusRetryAttempts := by
  obtain ⟨p, hp, hflags⟩ := Option.map_eq_some_iff.mp h
  obtain ⟨hreturned, hflags⟩ := Prod.mk.inj hflags
  obtain ⟨hclaimed, hwrites⟩ := Prod.mk.inj hflags
  exact ⟨p, hp, eq_pure_of_returned hreturned, hclaimed, by rw [hwrites]; decide⟩

/-- A service is started. -/
def serviceStarted : List atomicHost.system.Event :=
  prepared 0 "tx-1" "StartService" (.obj [("unit", .str "sshd.service")]) ++
    acts 2 14 sampleChoice

/-- The execution returned, its action has no re-check, and its status is terminal. -/
theorem serviceStarted_terminal : ∃ p,
    (atomicHost.system.run serviceStarted).procs[2]? = some p ∧ p.program = .pure () ∧
      (progress atomicHost p).claimed = true ∧
      ∃ st, (atomicHost.system.run serviceStarted).world.store.statusOf "tx-1" = some st ∧
        st.isTerminal = true := by
  obtain ⟨p, hp, hdone, hclaimed, hwritten⟩ :=
    returned_of_flags serviceStarted 2 (by decide +kernel)
  have hreq : p.request = .execute (sampleExecute atomicHost "tx-1" "StartService"
      (.obj [("unit", .str "sshd.service")])) := request_of_arrival hp rfl
  have hpasses : RecheckPasses atomicHost (sampleExecute atomicHost "tx-1" "StartService"
      (.obj [("unit", .str "sshd.service")])) (progress atomicHost p).preview
        (progress atomicHost p).live := by
    refine ⟨fun h => ?_, fun h => ?_⟩
    · exact absurd h (by decide)
    · exact absurd h (by decide)
  exact ⟨p, hp, hdone, hclaimed, (terminal_iff_recheckPasses serviceStarted 2 p _ hp hreq hdone
    hclaimed hwritten).1.mpr hpasses⟩

/-- A host with packages. -/
def aptHost : Daemon := sampleDaemon ["AptAutoremove"]

/-- An autoremove is approved when it would delete nothing, and executed when it would. -/
def autoremoveChanged : List aptHost.system.Event :=
  prepared 0 "tx-1" "AptAutoremove" (.obj []) ++
    acts 2 8 { sampleChoice with output := .ok "Remv libfoo [1.0]\n" }

/-- The execution returned after its claim, with every write it made successful, and its
transaction is still running. -/
theorem autoremoveChanged_running : ∃ p,
    (aptHost.system.run autoremoveChanged).procs[2]? = some p ∧ p.program = .pure () ∧
      p.request = .execute (sampleExecute aptHost "tx-1" "AptAutoremove" (.obj [])) ∧
      (progress aptHost p).claimed = true ∧
      (progress aptHost p).failedWrites < terminalStatusRetryAttempts ∧
      (aptHost.system.run autoremoveChanged).world.store.statusOf "tx-1" = some .running := by
  obtain ⟨p, hp, hdone, hclaimed, hwritten⟩ :=
    returned_of_flags autoremoveChanged 2 (by decide +kernel)
  exact ⟨p, hp, hdone, request_of_arrival hp rfl, hclaimed, hwritten, by decide +kernel⟩

end Sysknife.Dispatcher
