import Sysknife.Dispatcher.Terminal

/-!
# Executions are bound to their approval

Over every interleaving of requests, an action is executed for a transaction only in the terms in
which it was previewed, by the account that previewed it, with a sufficient role, under a grant
of that account that was not revoked, and once. `Bound` is the invariant: where the rows and
grants of the store come from, and what a request that has read the store still knows of it.

Identifiers are drawn by `Uuid::new_v4`; `FreshIds` says that no request names an identifier
before it is drawn.
-/

namespace Sysknife.Dispatcher

open Audit Store Tables

/-! ### What a request knows -/

section Knows

variable {d : Daemon} {w : World} {choice : Choice} {req : Request} {g : Progress} {t : String}

/-- What a request has read of the columns of its transaction is so. -/
structure Knows (s : Tables) (t : String) (g : Progress) : Prop where
  record : ∀ tx, g.record = some tx → ∃ row, s.fetchChainRow t = some row ∧
    row.actionName = tx.actionName ∧ row.requestHash = tx.requestHash
  owner : ∀ o, g.owner = some o → s.fetchChainRow t = o

/-- The columns a request may know of are not touched by a call that draws fresh identifiers. -/
theorem fetchChainRow_serve {env : StoreEnv} {op : DaemonCall}
    (hfresh : ∀ tx preview, op = .recordPreviewed tx preview → t ≠ choice.uuid) :
    (w.serve env choice op).2.store.fetchChainRow t = w.store.fetchChainRow t := by
  by_cases hop : ∃ tx preview, op = .recordPreviewed tx preview
  · obtain ⟨tx, preview, rfl⟩ := hop
    refine commit_induction (Q := fun s => s.fetchChainRow t = w.store.fetchChainRow t) rfl
      fun _ _ h => ?_
    obtain ⟨-, -, -, row, hrows, hid, -⟩ := recordPreviewed_spec h
    exact fetchChainRow_of_concat hrows fun heq => hfresh tx preview rfl (heq.symm.trans hid)
  · refine fetchChainRow_of_chainRows (chainRows_serve fun tx preview heq => ?_) t
    exact hop ⟨tx, preview, heq⟩

/-- A call leaves knowledge as it is. -/
theorem Knows.serve {env : StoreEnv} {op : DaemonCall} (h : Knows w.store t g)
    (hfresh : ∀ tx preview, op = .recordPreviewed tx preview → t ≠ choice.uuid) :
    Knows (w.serve env choice op).2.store t g := by
  refine ⟨fun tx htx => ?_, fun o ho => ?_⟩
  · rw [fetchChainRow_serve hfresh]
    exact h.record tx htx
  · rw [fetchChainRow_serve hfresh]
    exact h.owner o ho

/-- What the acting request knows after its call. -/
theorem Knows.next {op : DaemonCall} (h : Knows w.store t g)
    (hfresh : ∀ tx preview, op = .recordPreviewed tx preview → t ≠ choice.uuid)
    (ht : req.transactionId = some t) (hallowed : Allowed d req g op) :
    Knows (w.serve d.store choice op).2.store t (g.next op (w.serve d.store choice op).1) := by
  have hkept : Knows (w.serve d.store choice op).2.store t g := h.serve hfresh
  refine ⟨fun tx htx => ?_, fun o ho => ?_⟩
  · rcases g.next_record op (w.serve d.store choice op).1 with hsame | ⟨t', tx', hlast, hnew⟩
    · exact hkept.record tx (hsame ▸ htx)
    · obtain ⟨rfl, hanswer⟩ := Sigma.mk.inj hlast
      obtain rfl : t = t' := Option.some.inj (ht.symm.trans hallowed)
      obtain rfl := Option.some.inj (hnew.symm.trans htx)
      obtain ⟨hstore, row, hrow, -, haction, hhash⟩ := get_serve (eq_of_heq hanswer)
      refine ⟨row.toChainRow, ?_, haction, hhash⟩
      rw [hstore, fetchChainRow, hrow, Option.map_some]
  · rcases g.next_owner op (w.serve d.store choice op).1 with hsame | ⟨t', row, hlast, hnew⟩
    · exact hkept.owner o (hsame ▸ ho)
    · obtain ⟨rfl, hanswer⟩ := Sigma.mk.inj hlast
      obtain rfl : t = t' := Option.some.inj (ht.symm.trans hallowed)
      obtain rfl := Option.some.inj (hnew.symm.trans ho)
      have hanswer := eq_of_heq hanswer
      simp only [World.serve, World.read] at hanswer ⊢
      split at hanswer
      · cases hanswer
      · exact Except.ok.inj hanswer

/-- A recorded transaction keeps its columns for good. -/
theorem fetchChainRow_serve_of_some {env : StoreEnv} {op : DaemonCall} {row : ChainRow}
    (hrow : w.store.fetchChainRow t = some row) :
    (w.serve env choice op).2.store.fetchChainRow t = some row := by
  by_cases hop : ∃ tx preview, op = .recordPreviewed tx preview
  · obtain ⟨tx, preview, rfl⟩ := hop
    refine commit_induction (Q := fun s => s.fetchChainRow t = some row) hrow fun _ _ h => ?_
    obtain ⟨-, hnone, -, row', hrows, hid, -⟩ := recordPreviewed_spec h
    rw [fetchChainRow_of_concat hrows, hrow]
    rintro heq
    rw [← hid, heq, hrow] at hnone
    cases hnone
  · rw [fetchChainRow_of_chainRows (chainRows_serve fun tx preview heq => hop ⟨tx, preview, heq⟩),
      hrow]

end Knows

/-! ### The invariant -/

section Bound

variable {d : Daemon}

/-- The process recorded the transaction. -/
def Recorded (q : d.system.Process) (t : String) : Prop :=
  ∃ tx preview record, (⟨.recordPreviewed tx preview, .ok record⟩ : Call DaemonCall _) ∈ q.history ∧
    record.transactionId = t

variable (d) in
/-- The row has the terms of a preview, under its caller's name. -/
structure HasTerms (row : ChainRow) (v : PreviewRequest) : Prop where
  actionName : row.actionName = v.actionName
  requestHash : row.requestHash = computeRequestHash d v.actionName v.params
  principal : row.callerPrincipal = some v.caller.principal.asSignedStr

/-- The transaction was approved by an `approve` request of the account, which got a receipt. -/
def Approved (c : d.system.Config) (t : String) (principal : CallerPrincipal) : Prop :=
  ∃ (i : ℕ) (q : d.system.Process) (r : TransactionRequest) (receipt : String),
    c.procs[i]? = some q ∧ q.request = .approve r ∧ r.transactionId = t ∧
    r.caller.principal = principal ∧
    (⟨.approveTransaction t principal, .ok (some receipt)⟩ : Call DaemonCall _) ∈ q.history

/-- **The invariant of the bindings.** -/
structure Bound (c : d.system.Config) : Prop where
  claims : Claims c
  /-- Every row was recorded by a preview, in its terms. -/
  origin : ∀ row ∈ c.world.store.chainRows, ∃ (i : ℕ) (q : d.system.Process) (v : PreviewRequest),
    c.procs[i]? = some q ∧ q.request = .preview v ∧ Recorded q row.transactionId ∧ HasTerms d row v
  /-- What a process recorded is there, in its terms. -/
  recorded : ∀ (i : ℕ) (q : d.system.Process) t, c.procs[i]? = some q → Recorded q t →
    ∃ v row, q.request = .preview v ∧ c.world.store.fetchChainRow t = some row ∧ HasTerms d row v
  /-- A grant names the account that recorded the transaction and approved it. -/
  grants : ∀ e ∈ c.world.store.events, e.kind = AuditEventKind.approvalGranted.asStr →
    ∃ principal row, Approved c e.transactionId principal ∧
      e.callerPrincipal = some principal.asSignedStr ∧
      c.world.store.fetchChainRow e.transactionId = some row ∧
      row.callerPrincipal = some principal.asSignedStr
  knows : ∀ (i : ℕ) (p : d.system.Process) t, c.procs[i]? = some p →
    p.request.transactionId = some t → Knows c.world.store t (progress d p)
  /-- Who claimed a transaction has the role for it, and its terms and its account. -/
  claimant : ∀ (i : ℕ) (p : d.system.Process), c.procs[i]? = some p →
    (progress d p).claimed = true → ∃ r row, p.request = .execute r ∧
      d.policy.actionAllowed r.caller.role r.actionName = true ∧
      r.caller.principal ≠ .unattributed ∧
      c.world.store.fetchChainRow r.transactionId = some row ∧ row.actionName = r.actionName ∧
      row.requestHash = computeRequestHash d r.actionName r.params ∧
      row.callerPrincipal = some r.caller.principal.asSignedStr

/-- The identifier drawn for a new transaction is new: no request so far names it. -/
def FreshIds (c : d.system.Config) : d.system.Event → Prop
  | .arrive _ => True
  | .act pid choice => ∀ (p : d.system.Process) tx preview k, c.procs[pid]? = some p →
      p.program = .call (.recordPreviewed tx preview) k →
      ∀ (i : ℕ) (q : d.system.Process), c.procs[i]? = some q →
        q.request.transactionId ≠ some choice.uuid

theorem bound_initial : Bound (⟨.initial, []⟩ : d.system.Config) where
  claims := claims_initial
  origin _ hrow := by cases hrow
  recorded i q t hq := by simp at hq
  grants _ he := by cases he
  knows i p t hp := by simp at hp
  claimant i p hp := by simp at hp

theorem Bound.arrive {c : d.system.Config} (hc : Bound c) (req : Request) :
    Bound (c.arrive req) where
  claims := hc.claims.arrive req
  origin row hrow := by
    obtain ⟨i, q, v, hq, hrest⟩ := hc.origin row hrow
    exact ⟨i, q, v, System.getElem?_arrive_of_some hq, hrest⟩
  recorded i q t hq hrecorded := by
    rcases System.getElem?_arrive hq with hq | ⟨-, rfl⟩
    · exact hc.recorded i q t hq hrecorded
    · obtain ⟨_, _, _, hmem, -⟩ := hrecorded
      cases hmem
  grants e he hkind := by
    obtain ⟨principal, row, ⟨i, q, r, receipt, hq, hrest⟩, hgrant⟩ := hc.grants e he hkind
    exact ⟨principal, row, ⟨i, q, r, receipt, System.getElem?_arrive_of_some hq, hrest⟩, hgrant⟩
  knows i p t hp ht := by
    rcases System.getElem?_arrive hp with hp | ⟨-, rfl⟩
    · exact hc.knows i p t hp ht
    · exact ⟨fun _ h => (by cases h), fun _ h => (by cases h)⟩
  claimant i p hp hclaimed := by
    rcases System.getElem?_arrive hp with hp | ⟨-, rfl⟩
    · exact hc.claimant i p hp hclaimed
    · cases hclaimed

/-! ### One call -/

/-- What is recorded by a call: one transaction, in the terms of the call. -/
theorem recordPreviewed_serve (env : StoreEnv) (w : World) (choice : Choice) (tx : NewTransaction)
    (preview : PreviewEnvelope) :
    (∃ e, w.serve env choice (.recordPreviewed tx preview) = (.error e, w)) ∨
      ∃ record s row, w.serve env choice (.recordPreviewed tx preview) =
          (.ok record, { w with store := s }) ∧
        record.transactionId = choice.uuid ∧ s.chainRows = w.store.chainRows ++ [row] ∧
        s.fetchChainRow choice.uuid = some row ∧ row.transactionId = choice.uuid ∧
        row.actionName = tx.actionName ∧ row.requestHash = tx.requestHash ∧
        row.callerPrincipal = some tx.callerPrincipal.asSignedStr := by
  rcases commit_cases w choice (recordPreviewed env choice.clock choice.uuid tx preview) with
    ⟨e, heq⟩ | ⟨record, s, hrecord, heq⟩
  · exact .inl ⟨e, heq⟩
  · obtain ⟨hid, hnone, -, row, hrows, hrow, hterms⟩ := recordPreviewed_spec hrecord
    refine .inr ⟨record, s, row, heq, hid, hrows, ?_, hrow, hterms⟩
    rw [fetchChainRow_eq] at hnone ⊢
    rw [hrows, Table.lookup_concat, if_pos hrow, hnone, Option.none_or]

variable {c : d.system.Config} {pid : ℕ} {choice : Choice} {p : d.system.Process}
  {op : DaemonCall} {k : op.Answer → Handler Unit}

/-- What a process recorded, it recorded before, or by its last call. -/
theorem recorded_concat {q : d.system.Process} {answer : op.Answer} {t : String}
    (hhist : q.history = p.history ++ [⟨op, answer⟩]) (h : Recorded q t) :
    Recorded p t ∨ ∃ tx preview record,
      (⟨op, answer⟩ : Call DaemonCall DaemonCall.Answer) =
        ⟨.recordPreviewed tx preview, .ok record⟩ ∧ record.transactionId = t := by
  obtain ⟨tx, preview, record, hmem, hid⟩ := h
  rw [hhist] at hmem
  rcases List.mem_append.mp hmem with hmem | hmem
  · exact .inl ⟨tx, preview, record, hmem, hid⟩
  · exact .inr ⟨tx, preview, record, (List.mem_singleton.mp hmem).symm, hid⟩

theorem Approved.call {t : String} {principal : CallerPrincipal} (h : Approved c t principal)
    (hp : c.procs[pid]? = some p) : Approved (c.call pid choice p op k) t principal := by
  obtain ⟨i, q, r, receipt, hq, hreq, ht, hprincipal, hmem⟩ := h
  obtain ⟨q', hq', hreq', hhist⟩ := System.exists_grown_call hp hq
  exact ⟨i, q', r, receipt, hq', hreq'.trans hreq, ht, hprincipal, hhist _ hmem⟩

/-- The process that acted has the call in its history. -/
theorem exists_acted (hp : c.procs[pid]? = some p) {answer : op.Answer}
    (hanswer : (c.world.serve d.store choice op).1 = answer) :
    ∃ q, (c.call pid choice p op k).procs[pid]? = some q ∧ q.request = p.request ∧
      (⟨op, answer⟩ : Call DaemonCall DaemonCall.Answer) ∈ q.history := by
  refine ⟨_, System.getElem?_call_self hp, rfl, ?_⟩
  rw [← hanswer]
  exact List.mem_append_right _ (List.mem_singleton.mpr rfl)

section Call

variable (hc : Bound c) (hp : c.procs[pid]? = some p)

include hc hp

theorem Bound.origin_call (hallowed : Allowed d p.request (progress d p) op) (row : ChainRow)
    (hrow : row ∈ (c.call pid choice p op k).world.store.chainRows) :
    ∃ (i : ℕ) (q : d.system.Process) (v : PreviewRequest),
      (c.call pid choice p op k).procs[i]? = some q ∧ q.request = .preview v ∧
        Recorded q row.transactionId ∧ HasTerms d row v := by
  have hkept (hold : row ∈ c.world.store.chainRows) : ∃ (i : ℕ) (q : d.system.Process)
      (v : PreviewRequest), (c.call pid choice p op k).procs[i]? = some q ∧
        q.request = .preview v ∧ Recorded q row.transactionId ∧ HasTerms d row v := by
    obtain ⟨i, q, v, hq, hreq, ⟨tx, preview, record, hmem, hid⟩, hterms⟩ := hc.origin row hold
    obtain ⟨q', hq', hreq', hhist⟩ := System.exists_grown_call hp hq
    exact ⟨i, q', v, hq', hreq'.trans hreq, ⟨tx, preview, record, hhist _ hmem, hid⟩, hterms⟩
  rw [world_call] at hrow
  by_cases hop : ∃ tx preview, op = .recordPreviewed tx preview
  · obtain ⟨tx, preview, rfl⟩ := hop
    obtain ⟨v, hreq, haction, hhash, hprincipal⟩ := hallowed
    rcases recordPreviewed_serve d.store c.world choice tx preview with
      ⟨e, heq⟩ | ⟨record, s, row', heq, hid, hrows, -, hrow', hterms⟩
    · rw [heq] at hrow
      exact hkept hrow
    · rw [heq, hrows] at hrow
      rcases List.mem_append.mp hrow with hrow | hrow
      · exact hkept hrow
      obtain rfl := List.mem_singleton.mp hrow
      obtain ⟨q, hq, hreq', hmem⟩ := exists_acted hp (congrArg Prod.fst heq)
      exact ⟨pid, q, v, hq, hreq'.trans hreq, ⟨tx, preview, record, hmem, hid.trans hrow'.symm⟩,
        ⟨hterms.1.trans haction, hterms.2.1.trans hhash, hprincipal ▸ hterms.2.2⟩⟩
  · rw [chainRows_serve fun tx preview heq => hop ⟨tx, preview, heq⟩] at hrow
    exact hkept hrow

theorem Bound.recorded_call (hallowed : Allowed d p.request (progress d p) op) (i : ℕ)
    (q : d.system.Process) (t : String) (hq : (c.call pid choice p op k).procs[i]? = some q)
    (hrecorded : Recorded q t) :
    ∃ v row, q.request = .preview v ∧
      (c.call pid choice p op k).world.store.fetchChainRow t = some row ∧ HasTerms d row v := by
  have hkept {i : ℕ} {q : d.system.Process} (hq : c.procs[i]? = some q) (hrecorded : Recorded q t) :
      ∃ v row, q.request = .preview v ∧
        (c.call pid choice p op k).world.store.fetchChainRow t = some row ∧ HasTerms d row v := by
    obtain ⟨v, row, hreq, hrow, hterms⟩ := hc.recorded i q t hq hrecorded
    exact ⟨v, row, hreq, fetchChainRow_serve_of_some hrow, hterms⟩
  rcases process_call hp hq with ⟨rfl, hreq', hhist, -⟩ | ⟨-, hq⟩
  · rw [hreq']
    rcases recorded_concat hhist hrecorded with hold | ⟨tx, preview, record, hlast, rfl⟩
    · exact hkept hp hold
    · obtain ⟨rfl, hanswer⟩ := Sigma.mk.inj hlast
      have hanswer := eq_of_heq hanswer
      obtain ⟨v, hreq, haction, hhash, hprincipal⟩ := hallowed
      rw [world_call]
      rcases recordPreviewed_serve d.store c.world choice tx preview with
        ⟨e, heq⟩ | ⟨record', s, row, heq, hid, -, hrow, -, hterms⟩
      · rw [heq] at hanswer
        cases hanswer
      · rw [heq] at hanswer ⊢
        obtain rfl := Except.ok.inj hanswer
        exact ⟨v, row, hreq, by rw [hid, hrow],
          ⟨hterms.1.trans haction, hterms.2.1.trans hhash, hprincipal ▸ hterms.2.2⟩⟩
  · exact hkept hq hrecorded

/-- What the process that approves or claims knows: the row of the transaction is its caller's. -/
theorem Bound.row_of_owned {t : String} {tx : TransactionRecord} {caller : CallerAttribution}
    (ht : p.request.transactionId = some t) (hrecord : (progress d p).record = some tx)
    (howned : (progress d p).Owned caller) :
    ∃ row, c.world.store.fetchChainRow t = some row ∧ row.actionName = tx.actionName ∧
      row.requestHash = tx.requestHash ∧
      row.callerPrincipal = some caller.principal.asSignedStr := by
  have hknows := hc.knows pid p t hp ht
  obtain ⟨row, hrow, haction, hhash⟩ := hknows.record tx hrecord
  refine ⟨row, hrow, haction, hhash, ?_⟩
  rcases howned.2 with howner | ⟨row', howner, hprincipal⟩
  · -- a transaction that was missing when ownership was asked for is not there later
    rw [hknows.owner none howner] at hrow
    cases hrow
  · rw [hknows.owner (some row') howner] at hrow
    obtain rfl := Option.some.inj hrow
    exact hprincipal

theorem Bound.grants_call (hallowed : Allowed d p.request (progress d p) op) (e : EventRow)
    (he : e ∈ (c.call pid choice p op k).world.store.events)
    (hkind : e.kind = AuditEventKind.approvalGranted.asStr) :
    ∃ principal row, Approved (c.call pid choice p op k) e.transactionId principal ∧
      e.callerPrincipal = some principal.asSignedStr ∧
      (c.call pid choice p op k).world.store.fetchChainRow e.transactionId = some row ∧
      row.callerPrincipal = some principal.asSignedStr := by
  have hkept (hold : e ∈ c.world.store.events) : ∃ principal row,
      Approved (c.call pid choice p op k) e.transactionId principal ∧
      e.callerPrincipal = some principal.asSignedStr ∧
      (c.call pid choice p op k).world.store.fetchChainRow e.transactionId = some row ∧
      row.callerPrincipal = some principal.asSignedStr := by
    obtain ⟨principal, row, happroved, hname, hrow, hprincipal⟩ := hc.grants e hold hkind
    exact ⟨principal, row, happroved.call hp, hname, fetchChainRow_serve_of_some hrow, hprincipal⟩
  by_cases hop : ∃ t approver, op = .approveTransaction t approver
  · obtain ⟨t, approver, rfl⟩ := hop
    obtain ⟨r, hreq, rfl, rfl, hrecord, howned⟩ := hallowed
    obtain ⟨tx, htx⟩ := Option.isSome_iff_exists.mp hrecord
    obtain ⟨row, hrow, -, -, hprincipal⟩ := hc.row_of_owned hp (by rw [hreq]; rfl) htx howned
    rcases commit_cases c.world choice
        (approveTransaction d.store choice.clock r.transactionId r.caller.principal) with
      ⟨_, heq⟩ | ⟨receipt, s, happrove, heq⟩
    · have heq : c.world.serve d.store choice (.approveTransaction r.transactionId
        r.caller.principal) = _ := heq
      rw [world_call, heq] at he
      exact hkept he
    · have heq : c.world.serve d.store choice (.approveTransaction r.transactionId
        r.caller.principal) = _ := heq
      rw [world_call, heq] at he
      rcases events_of_approve happrove with hsame | ⟨hreceipt, grant, happended, hid, hname⟩
      · rw [hsame] at he
        exact hkept he
      · rw [happended] at he
        rcases List.mem_append.mp he with he | he
        · exact hkept he
        obtain rfl := List.mem_singleton.mp he
        obtain ⟨receipt, rfl⟩ := Option.isSome_iff_exists.mp hreceipt
        rw [hid]
        obtain ⟨q, hq, hreq', hmem⟩ := exists_acted hp (congrArg Prod.fst heq)
        exact ⟨r.caller.principal, row, ⟨pid, q, r, receipt, hq, hreq'.trans hreq, rfl, rfl, hmem⟩,
          hname, fetchChainRow_serve_of_some hrow, hprincipal⟩
  · obtain ⟨new, happended, hnew⟩ :
        NoGrants c.world.store (c.world.serve d.store choice op).2.store :=
      noGrants_serve fun t approver heq => hop ⟨t, approver, heq⟩
    rw [world_call, happended] at he
    rcases List.mem_append.mp he with he | he
    · exact hkept he
    · exact absurd hkind (hnew e he)

theorem Bound.knows_call (hfresh : FreshIds c (.act pid choice)) (hprog : p.program = .call op k)
    (hallowed : Allowed d p.request (progress d p) op) (i : ℕ) (q : d.system.Process) (t : String)
    (hq : (c.call pid choice p op k).procs[i]? = some q) (ht : q.request.transactionId = some t) :
    Knows (c.call pid choice p op k).world.store t (progress d q) := by
  rcases process_call hp hq with ⟨rfl, hreq, -, hprogress⟩ | ⟨-, hold⟩
  · rw [hreq] at ht
    rw [hprogress]
    refine (hc.knows i p t hp ht).next (fun tx preview hop heq => ?_) ht hallowed
    subst hop
    exact hfresh p tx preview k hp hprog i p hp (by rw [ht, heq])
  · refine (hc.knows i q t hold ht).serve fun tx preview hop heq => ?_
    subst hop
    exact hfresh p tx preview k hp hprog i q hold (by rw [ht, heq])

theorem Bound.claimant_call (hallowed : Allowed d p.request (progress d p) op) (i : ℕ)
    (q : d.system.Process) (hq : (c.call pid choice p op k).procs[i]? = some q)
    (hclaimed : (progress d q).claimed = true) :
    ∃ r row, q.request = .execute r ∧ d.policy.actionAllowed r.caller.role r.actionName = true ∧
      r.caller.principal ≠ .unattributed ∧
      (c.call pid choice p op k).world.store.fetchChainRow r.transactionId = some row ∧
      row.actionName = r.actionName ∧
      row.requestHash = computeRequestHash d r.actionName r.params ∧
      row.callerPrincipal = some r.caller.principal.asSignedStr := by
  have hkept {i : ℕ} {q : d.system.Process} (hq : c.procs[i]? = some q)
      (hclaimed : (progress d q).claimed = true) : ∃ r row, q.request = .execute r ∧
        d.policy.actionAllowed r.caller.role r.actionName = true ∧
        r.caller.principal ≠ .unattributed ∧
        (c.call pid choice p op k).world.store.fetchChainRow r.transactionId = some row ∧
        row.actionName = r.actionName ∧
        row.requestHash = computeRequestHash d r.actionName r.params ∧
        row.callerPrincipal = some r.caller.principal.asSignedStr := by
    obtain ⟨r, row, hreq, hrole, hattributed, hrow, hterms⟩ := hc.claimant i q hq hclaimed
    exact ⟨r, row, hreq, hrole, hattributed, fetchChainRow_serve_of_some hrow, hterms⟩
  rcases process_call hp hq with ⟨rfl, hreq', -, hprogress⟩ | ⟨-, hq⟩
  · rw [hreq']
    rw [hprogress, ((progress d p).next_flags op _).2.1, Bool.or_eq_true] at hclaimed
    rcases hclaimed with hclaimed | hclaims
    · exact hkept hp hclaimed
    · obtain ⟨t, digest, executor, rfl, -⟩ := claims_eq_true hclaims
      obtain ⟨r, spec, hreq, hchecked, -⟩ := hallowed
      obtain ⟨tx, htx, haction, hhash⟩ := hchecked.record
      obtain ⟨row, hrow, haction', hhash', hprincipal⟩ :=
        hc.row_of_owned hp (by rw [hreq]; rfl) htx hchecked.owned
      exact ⟨r, row, hreq, hchecked.role, hchecked.owned.1, fetchChainRow_serve_of_some hrow,
        haction'.trans haction, hhash'.trans hhash, hprincipal⟩
  · exact hkept hq hclaimed

end Call

/-- **The invariant survives every call.** -/
theorem Bound.call (hc : Bound c) (hfresh : FreshIds c (.act pid choice))
    (hp : c.procs[pid]? = some p) (hprog : p.program = .call op k)
    (hallowed : Allowed d p.request (progress d p) op) : Bound (c.call pid choice p op k) where
  claims := hc.claims.call hp hallowed
  origin := hc.origin_call hp hallowed
  recorded := hc.recorded_call hp hallowed
  grants := hc.grants_call hp hallowed
  knows := hc.knows_call hp hfresh hprog hallowed
  claimant := hc.claimant_call hp hallowed

theorem bound_run (events : List d.system.Event) (hfresh : System.Along FreshIds events) :
    Bound (d.system.run events) :=
  daemon_induction (R := FreshIds) bound_initial (fun _ req hc => hc.arrive req)
    (fun _ _ _ _ _ _ hc hR hp hprog hallowed => hc.call hR hp hprog hallowed) events hfresh

/-! ### Executions -/

/-- The bytes a request is hashed by. -/
def Request.message : Request → Option Bytes
  | .preview r => some (requestHashMessage r.actionName r.params)
  | .execute r => some (requestHashMessage r.actionName r.params)
  | _ => none

variable (d) in
/-- The request hashes of these requests do not collide. -/
def CollisionFree (requests : List Request) : Prop :=
  ∀ a ∈ requests, ∀ b ∈ requests, ∀ m m', a.message = some m → b.message = some m' →
    d.hmac m = d.hmac m' → m = m'

/-- An `execute` request is bound to the transaction it names. -/
structure BoundTo (c : d.system.Config) (r : ExecuteRequest) : Prop where
  previewed : ∃ (i : ℕ) (q : d.system.Process), c.procs[i]? = some q ∧ Recorded q r.transactionId
  /-- The preview that created the transaction was of the same action and parameters, by the
  same account. -/
  terms : ∀ (i : ℕ) (q : d.system.Process), c.procs[i]? = some q → Recorded q r.transactionId →
    ∃ v, q.request = .preview v ∧
      requestHashMessage v.actionName v.params = requestHashMessage r.actionName r.params ∧
      v.caller.principal = r.caller.principal
  attributed : r.caller.principal ≠ .unattributed
  role : ∃ required, d.policy.minRoleForAction r.actionName = some required ∧
    required ≤ r.caller.role
  approved : Approved c r.transactionId r.caller.principal
  /-- The account's approval is on record and was not revoked since. -/
  granted : ∃ before grant after, c.world.store.events = before ++ grant :: after ∧
    grant.kind = AuditEventKind.approvalGranted.asStr ∧ grant.transactionId = r.transactionId ∧
    grant.callerPrincipal = some r.caller.principal.asSignedStr ∧
    ∀ e ∈ after, e.transactionId = r.transactionId →
      e.kind ≠ AuditEventKind.approvalRevoked.asStr

/-- The request of a process is one that arrived. -/
theorem request_mem_arrivals {events : List d.system.Event} {i : ℕ} {q : d.system.Process}
    (hq : (d.system.run events).procs[i]? = some q) : q.request ∈ System.arrivals events := by
  rw [← System.requests_run]
  exact List.mem_map_of_mem (List.mem_of_getElem? hq)

/-- Whoever claimed a transaction is bound to it. -/
theorem Bound.boundTo {events : List d.system.Event} (hc : Bound (d.system.run events))
    (hcollision : CollisionFree d (System.arrivals events))
    (hp : (d.system.run events).procs[pid]? = some p) {r : ExecuteRequest}
    (hreq : p.request = .execute r) (hclaimed : (progress d p).claimed = true) :
    BoundTo (d.system.run events) r := by
  obtain ⟨r', row, hreq', hrole, hattributed, hrow, haction, hhash, hprincipal⟩ :=
    hc.claimant pid p hp hclaimed
  obtain rfl := Request.execute.inj (hreq.symm.trans hreq')
  have hrow' : Table.lookup ChainRow.transactionId r.transactionId
      (d.system.run events).world.store.chainRows = some row := by
    rw [← fetchChainRow_eq, hrow]
  have hid : row.transactionId = r.transactionId := Table.key_of_lookup hrow'
  have happroval :=
    ((hc.claims.claimed pid p r.transactionId hp (by rw [hreq]; rfl)).claimed hclaimed).1
  obtain ⟨before, grant, after, hevents, hkind, hgrant, hafter⟩ :=
    exists_grant hc.claims.lives (t := r.transactionId) (by rw [happroval]; decide)
  -- the grant names the account of the row, which is the caller's
  obtain ⟨principal, row', happroved, hname, hgranted, hprincipal'⟩ :=
    hc.grants grant (by rw [hevents]; simp) hkind
  rw [hgrant] at happroved hgranted
  obtain rfl := Option.some.inj (hrow.symm.trans hgranted)
  obtain rfl := CallerPrincipal.asSignedStr_injective
    (Option.some.inj (hprincipal.symm.trans hprincipal'))
  refine ⟨?_, fun i q hq hrecorded => ?_, hattributed, d.policy.actionAllowed_iff.mp hrole,
    happroved, before, grant, after, hevents, hkind, hgrant, hname, hafter⟩
  · obtain ⟨i, q, v, hq, -, hrecorded, -⟩ := hc.origin row (Table.mem_of_lookup hrow')
    exact ⟨i, q, hq, hid ▸ hrecorded⟩
  · obtain ⟨v, row', hv, hrow', hterms⟩ := hc.recorded i q r.transactionId hq hrecorded
    obtain rfl := Option.some.inj (hrow.symm.trans hrow')
    refine ⟨v, hv, ?_, CallerPrincipal.asSignedStr_injective
      (Option.some.inj (hterms.principal.symm.trans hprincipal))⟩
    refine hcollision _ (hv ▸ request_mem_arrivals hq) _ (hreq ▸ request_mem_arrivals hp) _ _
      rfl rfl (Hex.encode_injective ?_)
    exact hterms.requestHash.symm.trans hhash

/-- The calls that a flag stands for were made by the process itself or by none. -/
theorem Bound.not_mem_of_flag {events : List d.system.Event} (hc : Bound (d.system.run events))
    (hp : (d.system.run events).procs[pid]? = some p) {t : String}
    (ht : p.request.transactionId = some t) (hclaimed : (progress d p).claimed = true)
    {flag : Progress → Bool} {P : DaemonCall → Bool}
    (hflag : ∀ q : d.system.Process, flag (progress d q) = q.history.any fun call => P call.1)
    (hsound : ∀ (i : ℕ) (q : d.system.Process), (d.system.run events).procs[i]? = some q →
      flag (progress d q) = true → (progress d q).claimed = true)
    (hnot : flag (progress d p) = false) (j : ℕ) (q : d.system.Process)
    (hq : (d.system.run events).procs[j]? = some q) (htq : q.request.transactionId = some t)
    (call : Call DaemonCall DaemonCall.Answer) (hcall : P call.1 = true) : call ∉ q.history := by
  intro hmem
  have hraised : flag (progress d q) = true := by
    rw [hflag, List.any_eq_true]
    exact ⟨call, hmem, hcall⟩
  obtain rfl := hc.claims.once j pid q p t hq hp htq ht (hsound j q hq hraised) hclaimed
  obtain rfl := Option.some.inj (hp.symm.trans hq)
  rw [hnot] at hraised
  cases hraised

/-- **Executions are bound to their approval.** In every run in which new transactions get new
identifiers and request hashes do not collide, an action is executed for a transaction by a
request that is bound to it, and for the first time. The only other call of the executor is the
automatic rollback, by the same request: of an action that declares one, once, after its own
execution of the action failed and is known to have stopped. -/
theorem executor_calls_bound (events : List d.system.Event)
    (hfresh : System.Along FreshIds events)
    (hcollision : CollisionFree d (System.arrivals events)) (pid : ℕ) (p : d.system.Process)
    (hp : (d.system.run events).procs[pid]? = some p) :
    (∀ spec k, p.program = .call (.executeWithProgress spec) k → ∃ r, p.request = .execute r ∧
      d.buildActionSpec r.actionName r.params = .ok spec ∧ BoundTo (d.system.run events) r ∧
      ∀ (j : ℕ) (q : d.system.Process), (d.system.run events).procs[j]? = some q →
        q.request.transactionId = some r.transactionId → ∀ call ∈ q.history,
          call.1.starts = false) ∧
    (∀ rollback k, p.program = .call (.execute rollback) k → ∃ r spec lines result,
      p.request = .execute r ∧ d.buildActionSpec r.actionName r.params = .ok spec ∧
      BoundTo (d.system.run events) r ∧ spec.rollbackAvailable = true ∧
      rollbackSpecFor r.actionName = some rollback ∧
      ⟨.executeWithProgress spec, ()⟩ ∈ p.history ∧
      ⟨.executionResult, (lines, result)⟩ ∈ p.history ∧ failed result = true ∧
      mayStillBeRunning result = false ∧
      ∀ (j : ℕ) (q : d.system.Process), (d.system.run events).procs[j]? = some q →
        q.request.transactionId = some r.transactionId → ∀ call ∈ q.history,
          call.1.rollsBack = false) := by
  have hc := bound_run events hfresh
  have hsound := allSound_run events
  constructor
  · intro spec k hprog
    obtain ⟨r, hreq, hchecked, -, hclaimed, hstarted, -⟩ := allowed_of_next events hp hprog
    refine ⟨r, hreq, hchecked.spec_eq, hc.boundTo hcollision hp hreq hclaimed,
      fun j q hq htq call hmem => ?_⟩
    rw [Bool.eq_false_iff]
    intro hstarts
    exact hc.not_mem_of_flag hp (by rw [hreq]; rfl) hclaimed progress_started
      (fun i q hq => (hsound i q hq).started) hstarted j q hq htq call hstarts hmem
  · intro rollback k hprog
    obtain ⟨r, spec, result, hreq, hspec, havailable, hrollback, hclaimed, hstarted, hresult,
      hfailed, hstopped, hnot, -⟩ := allowed_of_next events hp hprog
    obtain ⟨lines, hanswered⟩ := mem_history_of_result hresult
    refine ⟨r, spec, lines, result, hreq, hspec, hc.boundTo hcollision hp hreq hclaimed,
      havailable, hrollback, ?_, hanswered, hfailed, hstopped, fun j q hq htq call hmem => ?_⟩
    · -- what was started is what the request names
      rw [progress_started, List.any_eq_true] at hstarted
      obtain ⟨⟨op, answer⟩, hmem, hstarts⟩ := hstarted
      obtain ⟨spec', rfl⟩ := starts_eq_true hstarts
      obtain ⟨pre, post, hsplit⟩ := List.append_of_mem hmem
      obtain ⟨r', hreq', hchecked, -⟩ := System.history_allowed (conduct d)
        (fun req => (req, {})) (conducts d) events hp hsplit
      rw [after_fst, hreq] at hreq'
      obtain rfl := Request.execute.inj hreq'
      obtain rfl := Except.ok.inj (hspec.symm.trans hchecked.spec_eq)
      exact hmem
    · rw [Bool.eq_false_iff]
      intro hrollsBack
      exact hc.not_mem_of_flag hp (by rw [hreq]; rfl) hclaimed progress_rolledBack
        (fun i q hq => (hsound i q hq).rolledBack) hnot j q hq htq call hrollsBack hmem

end Bound

/-! ### Sample runs -/

/-- The next call of a program is one of these. -/
def nextIs (P : DaemonCall → Bool) : Handler Unit → Bool
  | .pure _ => false
  | .call op _ => P op

theorem nextIs_eq_true {P : DaemonCall → Bool} {program : Handler Unit}
    (h : nextIs P program = true) : ∃ op k, program = .call op k ∧ P op = true := by
  unfold nextIs at h
  split at h
  · cases h
  · exact ⟨_, _, rfl, h⟩

/-- The call draws an identifier for a new transaction. -/
def DaemonCall.records : DaemonCall → Bool
  | .recordPreviewed _ _ => true
  | _ => false

/-- A test for `FreshIds`. -/
def drawsFresh {d : Daemon} (c : d.system.Config) : d.system.Event → Bool
  | .arrive _ => true
  | .act pid choice =>
    !(c.procs[pid]?.any fun p => nextIs DaemonCall.records p.program) ||
      c.procs.all fun q => q.request.transactionId != some choice.uuid

theorem freshIds_of_drawsFresh {d : Daemon} (c : d.system.Config) (e : d.system.Event)
    (h : drawsFresh c e = true) : FreshIds c e := by
  cases e with
  | arrive req => trivial
  | act pid choice =>
    intro p tx preview k hp hprog i q hq heq
    rw [drawsFresh, hp, Option.any_some, hprog, Bool.or_eq_true, List.all_eq_true] at h
    rcases h with h | h
    · cases h
    · have hne := h q (List.mem_of_getElem? hq)
      rw [heq, bne_self_eq_false] at hne
      cases hne

/-- The hash of the sample daemon is injective. -/
theorem collisionFree_sampleDaemon (supported : List String) (requests : List Request) :
    CollisionFree (sampleDaemon supported) requests :=
  fun _ _ _ _ _ _ _ _ heq => (List.cons.inj heq).2

/-- An upgrade about to be executed. -/
def upgradeApproved : List atomicHost.system.Event :=
  prepared 0 "tx-1" "UpdateSystem" (.obj []) ++ acts 2 8 sampleChoice

/-- The upgrade is bound to its transaction. -/
theorem upgradeApproved_bound : System.Along FreshIds upgradeApproved ∧
    CollisionFree atomicHost (System.arrivals upgradeApproved) ∧
    ∃ p spec k, (atomicHost.system.run upgradeApproved).procs[2]? = some p ∧
      p.program = .call (.executeWithProgress spec) k ∧
      BoundTo (atomicHost.system.run upgradeApproved)
        (sampleExecute atomicHost "tx-1" "UpdateSystem" (.obj [])) := by
  have hfresh : System.Along FreshIds upgradeApproved :=
    System.along_of_check freshIds_of_drawsFresh (by decide +kernel)
  have hcollision := collisionFree_sampleDaemon ["GetSystemState", "UpdateSystem", "StartService"]
    (System.arrivals upgradeApproved)
  have hnext : ((atomicHost.system.run upgradeApproved).procs[2]?.map fun p =>
      nextIs DaemonCall.starts p.program) = some true := by
    decide +kernel
  obtain ⟨p, hp, hstarts⟩ := Option.map_eq_some_iff.mp hnext
  obtain ⟨op, k, hprog, hstarts⟩ := nextIs_eq_true hstarts
  obtain ⟨spec, rfl⟩ := starts_eq_true hstarts
  obtain ⟨r, hreq, -, hbound, -⟩ :=
    (executor_calls_bound upgradeApproved hfresh hcollision 2 p hp).1 spec k hprog
  have hr : r = sampleExecute atomicHost "tx-1" "UpdateSystem" (.obj []) :=
    Request.execute.inj (hreq.symm.trans (request_of_arrival hp rfl))
  rw [hr] at hbound
  exact ⟨hfresh, hcollision, p, spec, k, hp, hprog, hbound⟩

/-- The upgrade was executed and failed. -/
def upgradeFailed : List atomicHost.system.Event :=
  prepared 0 "tx-1" "UpdateSystem" (.obj []) ++
    acts 2 12 { sampleChoice with result := .ok ⟨"", "", 1⟩ }

/-- The executor is called a second time for the transaction, and not for the action that was
previewed: a failed upgrade is rolled back. -/
theorem upgradeFailed_rollsBack : System.Along FreshIds upgradeFailed ∧
    CollisionFree atomicHost (System.arrivals upgradeFailed) ∧
    ∃ p r rollback k, (atomicHost.system.run upgradeFailed).procs[2]? = some p ∧
      p.request = .execute r ∧ p.program = .call (.execute rollback) k ∧
      (∃ call ∈ p.history, call.1.starts = true) ∧
      atomicHost.buildActionSpec r.actionName r.params ≠ .ok rollback := by
  have hfresh : System.Along FreshIds upgradeFailed :=
    System.along_of_check freshIds_of_drawsFresh (by decide +kernel)
  have hnext : ((atomicHost.system.run upgradeFailed).procs[2]?.map fun p =>
      (nextIs DaemonCall.rollsBack p.program, (progress atomicHost p).started)) =
        some (true, true) := by
    decide +kernel
  obtain ⟨p, hp, hflags⟩ := Option.map_eq_some_iff.mp hnext
  obtain ⟨hrollsBack, hstarted⟩ := Prod.mk.inj hflags
  rw [progress_started, List.any_eq_true] at hstarted
  obtain ⟨op, k, hprog, hrollsBack⟩ := nextIs_eq_true hrollsBack
  obtain ⟨rollback, rfl⟩ := rollsBack_eq_true hrollsBack
  obtain ⟨r, spec, result, hreq, -, -, hrollback, -⟩ := allowed_of_next upgradeFailed hp hprog
  have hr : r = sampleExecute atomicHost "tx-1" "UpdateSystem" (.obj []) :=
    Request.execute.inj (hreq.symm.trans (request_of_arrival hp rfl))
  refine ⟨hfresh, collisionFree_sampleDaemon _ _, p, r, rollback, k, hp, hreq, hprog, hstarted, ?_⟩
  rw [hr] at hrollback ⊢
  obtain rfl := Option.some.inj hrollback
  decide

end Sysknife.Dispatcher
