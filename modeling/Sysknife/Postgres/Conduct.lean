import Sysknife.Postgres.Store

/-!
# How the operations conduct themselves

What one operation of the store does in its database transaction, whatever its statements
report: an automaton keeps track of its `Work`, `Allowed` says when a call may be made, and
`Complete` what has been written when the transaction is committed. `conducts` is the proof, made
once along the programs; the results about all interleavings only use that.
-/

namespace Sysknife.Postgres

open Audit Store

/-! ### Work -/

/-- What an operation has learned and done so far. -/
structure Work where
  tx : Option TxId := none
  /-- The transaction is over. -/
  closed : Bool := false
  writes : List Write := []
  /-- Transactions whose unspent approval was looked after. -/
  cleared : List String := []
  /-- An unspent approval was looked for in vain. -/
  missed : Bool := false
  /-- Transactions whose row was selected `FOR UPDATE`. -/
  found : List String := []
  /-- A row that was selected `FOR UPDATE` was not there to be updated. -/
  lost : Bool := false
  /-- The newest event, as last read. -/
  eventTip : Option (Option EventRow) := none
  /-- The newest transaction, as last read. -/
  transactionTip : Option (Option TransactionRow) := none

namespace Work

/-- Add a write. -/
def wrote (g : Work) (w : Write) : Work := { g with writes := g.writes ++ [w] }

/-- Work after a statement that did not fail. -/
def after (g : Work) : (st : Statement) → st.Result → Work
  | .selectEventTip, tip => { g with eventTip := some tip }
  | .selectTransactionTip, tip => { g with transactionTip := some tip }
  | .findUnconsumed t, found =>
    if found then g else { g with cleared := t :: g.cleared, missed := true }
  | .consumeApproval t at_, n =>
    if 0 < n then { g.wrote (.consumeApproval t at_) with cleared := t :: g.cleared }
    else { g with cleared := t :: g.cleared, missed := true }
  | .deleteApproval t, n =>
    if 0 < n then { g.wrote (.deleteApproval t) with cleared := t :: g.cleared }
    else { g with cleared := t :: g.cleared }
  | .updateQueued t status, n => if 0 < n then g.wrote (.setStatus t status) else g
  | .updateStatus t status, n =>
    if 0 < n then g.wrote (.setStatus t status) else { g with lost := true }
  | .lockTransaction t, status => if status.isSome then { g with found := t :: g.found } else g
  | .insertApproval row, n => if 0 < n then g.wrote (.insertApproval row) else g
  | .insertEvent row, _ => g.wrote (.insertEvent row)
  | .insertTransaction row, _ => g.wrote (.insertTransaction row)
  | .insertPreview t preview, _ => g.wrote (.insertPreview t preview)
  | _, _ => g

/-- Work after a call and its answer. -/
def next (g : Work) : (c : PgCall) → c.Answer → Work
  | .begin_, .ok tx => { g with tx := some tx }
  | .commit _, _ => { g with closed := true }
  | .rollback _, _ => { g with closed := true }
  | .exec _ _, .error _ => { g with closed := true }
  | .exec _ st, .ok result => g.after st result
  | _, _ => g

/-- The transaction is open. -/
def Open (g : Work) (tx : TxId) : Prop := g.tx = some tx ∧ g.closed = false

/-- What counts as written is what the statements wrote. -/
theorem after_writes (g : Work) (st : Statement) (result : st.Result) :
    (g.after st result).writes = g.writes ++ (st.write result).toList := by
  unfold after
  split <;> try split_ifs
  all_goals simp_all [Statement.write, wrote]

theorem after_tx (g : Work) (st : Statement) (result : st.Result) :
    (g.after st result).tx = g.tx ∧ (g.after st result).closed = g.closed := by
  unfold after
  split <;> try split_ifs
  all_goals exact ⟨rfl, rfl⟩

end Work

/-! ### Complete transactions -/

/-- The write appends an event of this kind about this transaction. -/
def Appends (kind : AuditEventKind) (t : String) (w : Write) : Prop :=
  ∃ row, w = .insertEvent row ∧ row.kind = kind.asStr ∧ row.transactionId = t

/-- What canceling one transaction writes. -/
inductive CancelBlock (t : String) : List Write → Prop
  | plain {e : Write} (h : Appends .statusCanceled t e) :
      CancelBlock t [.setStatus t .canceled, e]
  | revoking {e e' : Write} (h : Appends .approvalRevoked t e) (h' : Appends .statusCanceled t e') :
      CancelBlock t [.setStatus t .canceled, .deleteApproval t, e, e']

/-- Canceling any number of transactions. -/
inductive Cancels : List Write → Prop
  | nil : Cancels []
  | concat {ws ws' : List Write} {t : String} (h : Cancels ws) (h' : CancelBlock t ws') :
      Cancels (ws ++ ws')

/-- What an operation has written when it commits. Only a claim that missed its approval spends
none, and only an update that lost its row changes none. -/
inductive Complete (req : PgRequest) (missed lost : Bool) : List Write → Prop
  | record (row : TransactionRow) (h : row.status = .queued) :
      Complete req missed lost [.insertTransaction row]
  | recordPreviewed (row : TransactionRow) (t : String) (preview : PreviewEnvelope)
      (h : row.status = .queued) :
      Complete req missed lost [.insertTransaction row, .insertPreview t preview]
  | approve {t digest : String} {e : Write} (h : Appends .approvalGranted t e) :
      Complete req missed lost [.insertApproval ⟨t, digest, none⟩, e]
  | revoke {t : String} {e : Write} (h : Appends .approvalRevoked t e) :
      Complete req missed lost [.deleteApproval t, e]
  | claim {t consumedAt : String} {e e' : Write} (h : Appends .approvalConsumed t e)
      (h' : Appends .statusRunning t e') :
      Complete req missed lost [.setStatus t .running, .consumeApproval t consumedAt, e, e']
  | claimMissed {t digest : String} {executor : CallerPrincipal} {e e' : Write}
      (hclaim : req = .claim t digest executor) (hmissed : missed = true)
      (h : Appends .approvalConsumed t e) (h' : Appends .statusRunning t e') :
      Complete req missed lost [.setStatus t .running, e, e']
  | move {t : String} {st : JobState} {e : Write} (hst : st ≠ .queued)
      (h : Appends (.ofJobState st) t e) : Complete req missed lost [.setStatus t st, e]
  | moveLost {t : String} {st : JobState} {e : Write} (hlost : lost = true)
      (h : Appends (.ofJobState st) t e) : Complete req missed lost [e]
  | cancels {ws : List Write} (h : Cancels ws) : Complete req missed lost ws

/-! ### The automaton -/

/-- A row that follows the newest one, as it was read. -/
def Follows (seq : ℕ) (prevChainHash : String) (prev : Option (ℕ × String)) : Prop :=
  seq = (prev.map Prod.fst).getD 0 + 1 ∧ prevChainHash = (prev.map Prod.snd).getD ""

/-- When a statement may be issued. -/
def Fits (req : PgRequest) (g : Work) : Statement → Prop
  | .updateQueued t st => st ≠ .queued ∧ (∀ row, .insertApproval row ∉ g.writes) ∧
      (∀ row, .insertTransaction row ∉ g.writes) ∧
      (t ∈ g.cleared → ∃ st, .setStatus t st ∈ g.writes) ∧ ∀ t new, req ≠ .updateStatus t new
  | .updateStatus t st =>
    st ≠ .queued ∧ g.writes = [] ∧ t ∈ g.found ∧ ∃ new, req = .updateStatus t new
  | .insertApproval row => row.consumedAt = none ∧ g.writes = []
  | .consumeApproval t _ => g.writes = [.setStatus t .running]
  | .insertEvent row => ∃ prev, g.eventTip = some prev ∧
      Follows row.seq row.prevChainHash (prev.map fun e => (e.seq, e.chainHash))
  | .insertTransaction row => row.status = .queued ∧ g.writes = [] ∧
      ∃ prev, g.transactionTip = some prev ∧
        Follows row.seq row.prevChainHash (prev.map fun r => (r.seq, r.chainHash))
  | _ => True

/-- When a call may be made. -/
def Allowed (req : PgRequest) (g : Work) : PgCall → Prop
  | .begin_ => g.tx = none
  | .exec tx st => g.Open tx ∧ Fits req g st
  | .commit tx => g.Open tx ∧ Complete req g.missed g.lost g.writes ∧
      ∀ t st, .setStatus t st ∈ g.writes → t ∈ g.cleared ∨ ∃ new, req = .updateStatus t new
  | .rollback tx => g.Open tx
  | _ => True

/-- The operations' automaton. -/
@[reducible] def conduct : Monitor PgCall PgCall.Answer where
  State := PgRequest × Work
  next s c answer := (s.1, s.2.next c answer)
  allowed s c := Allowed s.1 s.2 c

/-! ### Rules -/

section Keeps

variable {req : PgRequest} {g : Work} {α β : Type}

/-- The code keeps to the conduct, and `post` holds of its answer if it has one. -/
def Keeps (req : PgRequest) (g : Work) (m : Query α) (post : Work → α → Prop) : Prop :=
  conduct.Obeys (fun s r => s.1 = req ∧ ∀ a, r = .ok a → post s.2 a) m.run (req, g)

theorem Keeps.bind {m : Query α} {f : α → Query β} {post : Work → β → Prop}
    (h : Keeps req g m fun g' a => Keeps req g' (f a) post) : Keeps req g (m >>= f) post := by
  refine Monitor.obeys_bind (Monitor.Obeys.mono h ?_)
  rintro ⟨req', g'⟩ r ⟨rfl, hr⟩
  cases r with
  | error e => exact ⟨rfl, fun a ha => by cases ha⟩
  | ok a => exact hr a rfl

theorem Keeps.pure {a : α} {post : Work → α → Prop} (h : post g a) :
    Keeps req g (Pure.pure a : Query α) post :=
  ⟨rfl, fun a' ha => by cases ha; exact h⟩

theorem Keeps.throw {e : StoreError} {post : Work → α → Prop} :
    Keeps req g (MonadExcept.throw e : Query α) post :=
  ⟨rfl, fun a ha => by cases ha⟩

theorem Keeps.exec {tx : TxId} {st : Statement} {post : Work → st.Result → Prop}
    (hopen : g.Open tx) (hfits : Fits req g st) (h : ∀ a, post (g.after st a) a) :
    Keeps req g (Postgres.exec tx st) post := by
  refine Monitor.obeys_perform ⟨hopen, hfits⟩ fun r => ⟨rfl, fun a ha => ?_⟩
  subst ha
  exact h a

theorem Keeps.begin_ {post : Work → TxId → Prop} (hnone : g.tx = none)
    (h : ∀ tx, post { g with tx := some tx } tx) : Keeps req g Postgres.begin_ post := by
  refine Monitor.obeys_perform hnone fun r => ⟨rfl, fun a ha => ?_⟩
  subst ha
  exact h a

theorem Keeps.nowIso {post : Work → String → Prop} (h : ∀ text, post g text) :
    Keeps req g Postgres.nowIso post := by
  refine Monitor.obeys_perform trivial fun r => ⟨rfl, fun a ha => ?_⟩
  subst ha
  exact h a

theorem Keeps.selectCommitment {t : String} {post : Work → Option (String × Option String) → Prop}
    (h : ∀ row, post g row) : Keeps req g (Postgres.selectCommitment t) post := by
  refine Monitor.obeys_perform trivial fun r => ⟨rfl, fun a ha => ?_⟩
  subst ha
  exact h a

/-- Nothing is asked of what follows a commit but that it makes no more calls. -/
theorem Keeps.commit {tx : TxId} {post : Work → Unit → Prop} (hopen : g.Open tx)
    (hcomplete : Complete req g.missed g.lost g.writes)
    (hcleared : ∀ t st, .setStatus t st ∈ g.writes →
      t ∈ g.cleared ∨ ∃ new, req = .updateStatus t new)
    (h : ∀ g', post g' ()) : Keeps req g (Postgres.commit tx) post := by
  refine Monitor.obeys_perform ⟨hopen, hcomplete, hcleared⟩ fun r => ⟨rfl, fun a _ => ?_⟩
  exact h _

theorem Keeps.abandon {tx : TxId} {e : StoreError} {post : Work → α → Prop} (hopen : g.Open tx) :
    Keeps req g (Postgres.abandon tx e : Query α) post :=
  Monitor.obeys_perform_bind hopen fun r => ⟨rfl, fun a ha => by cases ha⟩

end Keeps

/-! ### The programs -/

section Programs

variable {req : PgRequest} {g : Work} {key : AuditKey} {tx : TxId} {t : String}

/-- An append writes one event of its kind, and reads the tip. -/
theorem keeps_appendEvent {kind : AuditEventKind} {digest : String} {identity : EventIdentity}
    {post : Work → Unit → Prop} (hopen : g.Open tx)
    (h : ∀ e tip, Appends kind t e → post ({ g with eventTip := tip }.wrote e) ()) :
    Keeps req g (appendEvent key tx kind t digest identity) post := by
  have hinsert (prev : Option EventRow) : Keeps req { g with eventTip := some prev } (do
      let createdAt ← nowIso
      exec tx (.insertEvent (eventRow key prev createdAt kind t digest identity))) post := by
    refine .bind (.nowIso fun createdAt => .exec hopen ⟨prev, rfl, ?_⟩ fun _ => ?_)
    · cases prev <;> exact ⟨rfl, rfl⟩
    · exact h _ _ ⟨_, rfl, rfl, rfl⟩
  refine .bind (.bind (.exec hopen trivial fun prev => ?_))
  cases prev with
  | none => exact .pure (hinsert none)
  | some row => exact .bind (.exec hopen trivial fun _ => .pure (hinsert (some row)))

/-- A revocation deletes the approval and records that, or finds none. -/
theorem keeps_revoke {who : String} {post : Work → Bool → Prop} (hopen : g.Open tx)
    (hnone : ∀ g' b, g'.Open tx → g'.writes = g.writes → g'.cleared = t :: g.cleared → post g' b)
    (hrevoked : ∀ g' e b, g'.Open tx → Appends .approvalRevoked t e →
      g'.writes = g.writes ++ [.deleteApproval t, e] → g'.cleared = t :: g.cleared → post g' b) :
    Keeps req g (revokeUnconsumedApprovalInTx key tx t who) post := by
  refine .bind (.exec hopen trivial fun digest => ?_)
  refine .bind (.bind (.exec hopen trivial fun found => ?_))
  cases found with
  | false => exact .pure (.pure (hnone _ _ hopen rfl rfl))
  | true =>
    refine .exec hopen trivial fun n => ?_
    by_cases hn : 0 < n
    · simp only [Work.after, if_pos hn, if_true]
      cases digest with
      | none => exact .abandon hopen
      | some digest =>
        refine .bind (keeps_appendEvent hopen fun e tip he => ?_)
        refine .pure (hrevoked _ e _ hopen he ?_ rfl)
        simp [Work.wrote]
    · simp only [Work.after, if_neg hn, if_true]
      exact .pure (hnone _ _ hopen rfl rfl)

/-- Canceling one transaction writes a block, or finds it no longer queued. -/
theorem keeps_cancelQueuedInTx {who : String} {post : Work → ℕ → Prop} (hopen : g.Open tx)
    (hfits : (∀ row, .insertApproval row ∉ g.writes) ∧ (∀ row, .insertTransaction row ∉ g.writes) ∧
      (t ∈ g.cleared → ∃ st, .setStatus t st ∈ g.writes) ∧ ∀ t new, req ≠ .updateStatus t new)
    (hnone : ∀ g' n, g'.Open tx → g'.writes = g.writes → g'.cleared = g.cleared → post g' n)
    (hcanceled : ∀ g' ws n, g'.Open tx → CancelBlock t ws → g'.writes = g.writes ++ ws →
      g'.cleared = t :: g.cleared → post g' n) :
    Keeps req g (cancelQueuedInTx key tx t who) post := by
  refine .bind (.bind (.exec hopen trivial fun found => ?_))
  cases found with
  | false => exact .pure (.pure (hnone _ _ hopen rfl rfl))
  | true =>
    refine .exec hopen ⟨by decide, hfits⟩ fun n => ?_
    by_cases hn : 0 < n
    · simp only [Work.after, if_pos hn]
      refine .bind (keeps_revoke hopen ?_ ?_)
      · intro g' b hopen' hwrites hcleared
        refine .bind (keeps_appendEvent hopen' fun e tip he => .pure ?_)
        refine hcanceled _ _ _ hopen' (.plain he) ?_ hcleared
        simp [Work.wrote, hwrites]
      · intro g' e b hopen' he hwrites hcleared
        refine .bind (keeps_appendEvent hopen' fun e' tip he' => .pure ?_)
        refine hcanceled _ _ _ hopen' (.revoking he he') ?_ hcleared
        simp [Work.wrote, hwrites]
    · simp only [Work.after, if_neg hn]
      exact .pure (hnone _ _ hopen rfl rfl)

/-- The cancellations so far are complete, and every approval was looked after. -/
structure Swept (g : Work) (tx : TxId) : Prop where
  opened : g.Open tx
  cancels : Cancels g.writes
  cleared : ∀ t st, .setStatus t st ∈ g.writes → t ∈ g.cleared
  moved : ∀ t ∈ g.cleared, ∃ st, .setStatus t st ∈ g.writes

/-- Canceling inserts neither approvals nor transactions. -/
theorem not_insert_of_cancels {ws : List Write} (h : Cancels ws) :
    (∀ row, .insertApproval row ∉ ws) ∧ ∀ row, .insertTransaction row ∉ ws := by
  induction h with
  | nil => simp
  | concat _ hblock ih =>
    cases hblock with
    | plain he =>
      obtain ⟨row, rfl, -⟩ := he
      simpa using ih
    | revoking he he' =>
      obtain ⟨row, rfl, -⟩ := he
      obtain ⟨row', rfl, -⟩ := he'
      simpa using ih

theorem setStatus_mem_of_block {ws : List Write} (h : CancelBlock t ws) :
    .setStatus t .canceled ∈ ws := by
  cases h <;> simp

/-- The only status a block sets is that of its transaction. -/
theorem eq_of_setStatus_mem_block {t' : String} {st : JobState} {ws : List Write}
    (h : CancelBlock t ws) (hmem : .setStatus t' st ∈ ws) : t' = t := by
  cases h with
  | plain he =>
    obtain ⟨row, rfl, -⟩ := he
    simp at hmem
    exact hmem.1
  | revoking he he' =>
    obtain ⟨row, rfl, -⟩ := he
    obtain ⟨row', rfl, -⟩ := he'
    simp at hmem
    exact hmem.1

theorem keeps_sweep {who : String} {post : Work → ℕ → Prop}
    (hreq : ∀ t new, req ≠ .updateStatus t new) (hg : Swept g tx)
    (h : ∀ g' n, Swept g' tx → post g' n) : Keeps req g (cancelQueuedInTx key tx t who) post := by
  obtain ⟨happroval, htransaction⟩ := not_insert_of_cancels hg.cancels
  refine keeps_cancelQueuedInTx hg.opened ⟨happroval, htransaction, hg.moved t, hreq⟩ ?_ ?_
  · intro g' n hopen hwrites hcleared
    refine h g' n ⟨hopen, hwrites ▸ hg.cancels, ?_, ?_⟩
    · rw [hwrites, hcleared]
      exact hg.cleared
    · rw [hwrites, hcleared]
      exact hg.moved
  · intro g' ws n hopen hblock hwrites hcleared
    refine h g' n ⟨hopen, hwrites ▸ hg.cancels.concat hblock, fun t' st hmem => ?_,
      fun t' hmem => ?_⟩
    · rw [hwrites, List.mem_append] at hmem
      rw [hcleared, List.mem_cons]
      rcases hmem with hmem | hmem
      · exact .inr (hg.cleared t' st hmem)
      · exact .inl (eq_of_setStatus_mem_block hblock hmem)
    · rw [hcleared, List.mem_cons] at hmem
      rw [hwrites]
      rcases hmem with rfl | hmem
      · exact ⟨.canceled, List.mem_append_right _ (setStatus_mem_of_block hblock)⟩
      · obtain ⟨st, hst⟩ := hg.moved t' hmem
        exact ⟨st, List.mem_append_left _ hst⟩

theorem keeps_cancelEach {ids : List String} {n : ℕ} {post : Work → ℕ → Prop}
    (hreq : ∀ t new, req ≠ .updateStatus t new) (hg : Swept g tx)
    (h : ∀ g' n, Swept g' tx → post g' n) : Keeps req g (cancelEach key tx ids n) post := by
  induction ids generalizing g n with
  | nil => exact .pure (h g n hg)
  | cons id ids ih => exact .bind (keeps_sweep hreq hg fun g' _ hg' => ih hg')

/-- A swept transaction may be committed. -/
theorem Swept.commit {post : Work → Unit → Prop} (hg : Swept g tx) (h : ∀ g', post g' ()) :
    Keeps req g (Postgres.commit tx) post :=
  .commit hg.opened (.cancels hg.cancels) (fun t st hmem => .inl (hg.cleared t st hmem)) h

theorem swept_begin (tx : TxId) : Swept { ({} : Work) with tx := some tx } tx :=
  ⟨⟨rfl, rfl⟩, .nil, fun t st hmem => absurd hmem (by simp), fun t hmem => absurd hmem (by simp)⟩

/-- A transaction without writes may be committed. -/
theorem Keeps.commitNothing {post : Work → Unit → Prop} (hopen : g.Open tx) (hg : g.writes = [])
    (h : ∀ g', post g' ()) : Keeps req g (Postgres.commit tx) post := by
  refine .commit hopen (hg ▸ .cancels .nil) (fun t st hmem => ?_) h
  rw [hg] at hmem
  cases hmem

variable {env : StoreEnv}

theorem keeps_insertTransaction {transaction : NewTransaction}
    {post : Work → TransactionRecord → Prop}
    (hopen : g.Open tx) (hwrites : g.writes = [])
    (h : ∀ g' row inserted, g'.Open tx → row.status = .queued →
      g'.writes = [.insertTransaction row] → post g' inserted) :
    Keeps req g (insertTransaction env key tx t transaction) post := by
  have hrest (createdAt : String) (prev : Option TransactionRow) (found : List String) :
      Keeps req { g with transactionTip := some prev, found := found } (do
        let tip ← exec tx .selectEventTip
        let row := transactionRow env key prev ((tip.map EventRow.chainHash).getD "") createdAt
          t transaction
        exec tx (.insertTransaction row)
        return row.toRecord) post := by
    refine .bind (.exec hopen trivial fun tip => .bind (.exec hopen ⟨rfl, hwrites, prev, rfl, ?_⟩
      fun _ => .pure ?_))
    · cases prev <;> exact ⟨rfl, rfl⟩
    · refine h _ (transactionRow env key prev ((tip.map EventRow.chainHash).getD "") createdAt t
        transaction) _ hopen rfl ?_
      simp [Work.after, Work.wrote, hwrites]
  refine .bind (.nowIso fun createdAt => .bind (.bind (.exec hopen trivial fun prev => ?_)))
  cases prev with
  | none => exact .pure (hrest createdAt none g.found)
  | some row =>
    refine .bind (.exec hopen trivial fun status => .pure ?_)
    cases status with
    | none => exact hrest createdAt (some row) g.found
    | some status => exact hrest createdAt (some row) (row.transactionId :: g.found)

/-- A new transaction has an empty record of work. -/
theorem open_begin (tx : TxId) : ({ tx := some tx } : Work).Open tx := ⟨rfl, rfl⟩

theorem keeps_record {transaction : NewTransaction} :
    Keeps req {} (record env key t transaction) fun _ _ => True := by
  refine .bind (.begin_ rfl fun tx => .bind (keeps_insertTransaction (open_begin tx) rfl ?_))
  intro g row inserted hopen hqueued hwrites
  refine .bind (.commit hopen (hwrites ▸ .record row hqueued) (fun t st hmem => ?_)
    fun _ => .pure trivial)
  simp [hwrites] at hmem

theorem keeps_recordPreviewed {transaction : NewTransaction} {preview : PreviewEnvelope} :
    Keeps req {} (recordPreviewed env key t transaction preview) fun _ _ => True := by
  refine .bind (.begin_ rfl fun tx => .bind (keeps_insertTransaction (open_begin tx) rfl ?_))
  intro g row inserted hopen hqueued hwrites
  refine .bind (.exec hopen trivial fun _ => .bind (.commit hopen ?_ (fun t st hmem => ?_)
    fun _ => .pure trivial))
  · simp only [Work.after, Work.wrote, hwrites]
    exact .recordPreviewed row t preview hqueued
  · simp [Work.after, Work.wrote, hwrites] at hmem

theorem keeps_updateStatus {new : JobState} :
    Keeps (.updateStatus t new) {} (updateStatus key t new) fun _ _ => True := by
  refine .bind (.begin_ rfl fun tx => .bind (.bind (.exec (open_begin tx) trivial fun found => ?_)))
  cases found with
  | false => exact .pure (.abandon (open_begin tx))
  | true =>
    refine .exec (open_begin tx) trivial fun current => ?_
    cases current with
    | none => exact .abandon (open_begin tx)
    | some current =>
      simp only
      split_ifs with hallowed
      · exact .abandon (open_begin tx)
      · have hqueued : new ≠ .queued := by
          rintro rfl
          rw [JobState.not_allowedTransition_queued] at hallowed
          exact hallowed rfl
        refine .bind (.exec (open_begin tx) ⟨hqueued, rfl, List.mem_singleton.mpr rfl, new, rfl⟩
          fun n => ?_)
        by_cases hn : 0 < n
        · simp only [Work.after, if_pos hn, Option.isSome_some, if_true]
          refine .bind (keeps_appendEvent (open_begin tx) fun e tip he => .commit (open_begin tx)
            (.move hqueued he) (fun t' st hmem => ?_) fun _ => trivial)
          obtain ⟨row, rfl, -⟩ := he
          simp [Work.wrote] at hmem
          exact .inr ⟨new, by rw [hmem.1]⟩
        · simp only [Work.after, if_neg hn, Option.isSome_some, if_true]
          refine .bind (keeps_appendEvent (open_begin tx) fun e tip he => .commit (open_begin tx)
            (.moveLost rfl he) (fun t' st hmem => ?_) fun _ => trivial)
          obtain ⟨row, rfl, -⟩ := he
          simp [Work.wrote] at hmem

theorem keeps_approveTransaction {approver : CallerPrincipal} :
    Keeps req {} (approveTransaction env key t approver) fun _ _ => True := by
  refine .bind (.selectCommitment fun row => ?_)
  match row with
  | none => exact .pure trivial
  | some (requestHash, committedDigest) =>
    simp only
    split_ifs
    · exact .throw
    · refine .bind (.begin_ rfl fun tx => ?_)
      refine .bind (.bind (.exec (open_begin tx) trivial fun found => ?_))
      have hnothing : Keeps req { tx := some tx } (do
          commit tx
          return (none : Option String)) fun _ _ => True :=
        .bind (.commitNothing (open_begin tx) rfl fun _ => .pure trivial)
      cases found with
      | false => exact .pure hnothing
      | true =>
        refine .exec (open_begin tx) ⟨rfl, rfl⟩ fun n => ?_
        by_cases hn : 0 < n
        · simp only [Work.after, if_pos hn]
          refine .bind (keeps_appendEvent (open_begin tx) fun e tip he => .bind
            (.commit (open_begin tx) (.approve he) (fun t' st hmem => ?_) fun _ => .pure trivial))
          obtain ⟨row, rfl, -⟩ := he
          simp [Work.wrote] at hmem
        · simp only [Work.after, if_neg hn]
          exact hnothing

theorem keeps_revokeUnconsumedApproval {revoker : CallerPrincipal} :
    Keeps req {} (revokeUnconsumedApproval key t revoker) fun _ _ => True := by
  refine .bind (.begin_ rfl fun tx => .bind (keeps_revoke (open_begin tx) ?_ ?_))
  · intro g b hopen hwrites _
    exact .bind (.commitNothing hopen hwrites fun _ => .pure trivial)
  · intro g e b hopen he hwrites _
    refine .bind (.commit hopen (hwrites ▸ .revoke he) (fun t' st hmem => ?_) fun _ =>
      .pure trivial)
    obtain ⟨row, rfl, -⟩ := he
    simp [hwrites] at hmem

theorem keeps_cleanupStaleQueued :
    Keeps .cleanup {} (cleanupStaleQueued key) fun _ _ => True := by
  refine .bind (.begin_ rfl fun tx => .bind (.exec (open_begin tx) trivial fun ids => ?_))
  exact .bind (keeps_cancelEach (fun _ _ => nofun) (swept_begin tx) fun g n hg =>
    .bind (hg.commit fun _ => .pure trivial))

theorem keeps_cancelQueued {canceller : CallerPrincipal} :
    Keeps (.cancelQueued t canceller) {} (cancelQueued key t canceller) fun _ _ => True :=
  .bind (.begin_ rfl fun tx => .bind (keeps_sweep (fun _ _ => nofun) (swept_begin tx) fun _ _ hg =>
    .bind (hg.commit fun _ => .pure trivial)))

/-- The events of a claim, after the approval was looked for. -/
theorem keeps_claimEvents {digest : String} {executor : CallerPrincipal} (hopen : g.Open tx)
    (hcleared : t ∈ g.cleared)
    (hwrites : (∃ consumedAt, g.writes = [.setStatus t .running, .consumeApproval t consumedAt]) ∨
      (g.missed = true ∧ g.writes = [.setStatus t .running])) :
    Keeps (.claim t digest executor) g (do
      appendEvent key tx .approvalConsumed t digest (.v2 executor.asSignedStr)
      appendEvent key tx .statusRunning t "" .legacyV1
      commit tx
      return true) fun _ _ => True := by
  refine .bind (keeps_appendEvent hopen fun e tip he => .bind (keeps_appendEvent hopen
    fun e' tip' he' => .bind (.commit hopen ?_ (fun t' st hmem => .inl ?_) fun _ => .pure trivial)))
  · rcases hwrites with ⟨consumedAt, hwrites⟩ | ⟨hmissed, hwrites⟩
    · simp only [Work.wrote, hwrites]
      exact .claim he he'
    · simp only [Work.wrote, hwrites]
      exact .claimMissed rfl hmissed he he'
  · obtain ⟨row, rfl, -⟩ := he
    obtain ⟨row', rfl, -⟩ := he'
    rcases hwrites with ⟨consumedAt, hwrites⟩ | ⟨-, hwrites⟩
    · simp [Work.wrote, hwrites] at hmem
      exact hmem.1 ▸ hcleared
    · simp [Work.wrote, hwrites] at hmem
      exact hmem.1 ▸ hcleared

theorem keeps_claimApprovedForExecution {digest : String} {executor : CallerPrincipal} :
    Keeps (.claim t digest executor) {} (claimApprovedForExecution key t digest executor)
      fun _ _ => True := by
  refine .bind (.begin_ rfl fun tx => .bind (.bind (.exec (open_begin tx) trivial fun found => ?_)))
  have hnothing : Keeps (.claim t digest executor) { tx := some tx } (do
      commit tx
      return false) fun _ _ => True :=
    .bind (.commitNothing (open_begin tx) rfl fun _ => .pure trivial)
  cases found with
  | false => exact .pure hnothing
  | true =>
    refine .exec (open_begin tx) ⟨by decide, fun row => List.not_mem_nil,
      fun row => List.not_mem_nil,
      fun hmem => absurd hmem List.not_mem_nil, fun _ _ => nofun⟩ fun n => ?_
    by_cases hn : 0 < n
    · simp only [Work.after, if_pos hn]
      refine .bind (.nowIso fun consumedAt => .bind (.bind (.exec (open_begin tx) trivial
        fun found => ?_)))
      cases found with
      | false =>
        exact .pure (keeps_claimEvents (open_begin tx) (List.mem_singleton.mpr rfl)
          (.inr ⟨rfl, rfl⟩))
      | true =>
        refine .exec (open_begin tx) rfl fun n' => ?_
        by_cases hn' : 0 < n'
        · simp only [Work.after, if_pos hn', if_true]
          exact keeps_claimEvents (open_begin tx) (List.mem_singleton.mpr rfl)
            (.inl ⟨consumedAt, rfl⟩)
        · simp only [Work.after, if_neg hn', if_true]
          exact keeps_claimEvents (open_begin tx) (List.mem_singleton.mpr rfl)
            (.inr ⟨rfl, rfl⟩)
    · simp only [Work.after, if_neg hn]
      exact hnothing

/-- **Every operation keeps to its conduct.** -/
theorem conducts (store : PgStore) (req : PgRequest) :
    conduct.Obeys (fun _ _ => True) (store.program req) (req, {}) := by
  have hdone {α : Type} {m : Query α} (h : Keeps req {} m fun _ _ => True) :
      conduct.Obeys (fun _ _ => True) (do let _ ← m.run) (req, {}) :=
    Monitor.obeys_bind (Monitor.Obeys.mono h fun _ _ _ => trivial)
  cases req with
  | record => exact hdone keeps_record
  | recordPreviewed => exact hdone keeps_recordPreviewed
  | updateStatus => exact hdone keeps_updateStatus
  | approve => exact hdone keeps_approveTransaction
  | revoke => exact hdone keeps_revokeUnconsumedApproval
  | claim => exact hdone keeps_claimApprovedForExecution
  | cleanup => exact hdone keeps_cleanupStaleQueued
  | cancelQueued => exact hdone keeps_cancelQueued

end Programs

end Sysknife.Postgres
