import Sysknife.Store.Events
import Sysknife.Store.Status

/-!
# Honest stores verify

The writer and the verifiers are separate code: an operation signs and links what it appends,
`verifyRows`, `verifyEventRows` and `verifyEventBinding` re-encode and compare it, and
`statusOutcome` reads the events back into statuses. This module runs the one against the
others.

* `TableStep`: the single writes every operation is made of (`steps_apply`). Each of them keeps
  `Honest`, in which both chains are `Written`.
* `SoundHistory`: what the cross-check asks of a transaction's events. Every step of a life
  keeps it, so agreement is never lost (`agreeing_apply`); where a store of an earlier release
  lacks it, no operation brings it back.

`honest_stores_verify` puts the two together for every sequence of operations.
-/

namespace Sysknife.Store

open Audit Relation

/-! ### Single writes -/

/-- The transaction is recorded. -/
def Tables.Recorded (s : Tables) (t : String) : Prop := (s.findTransaction t).isSome = true

/-- The writes the operations are made of, under the key of the store. -/
inductive TableStep (env : StoreEnv) (key : AuditKey) : Tables → Tables → Prop
  | status (s : Tables) (p : TransactionRow → Bool) (status : JobState) :
      TableStep env key s (s.setStatusWhere p status).2
  | approvals (s : Tables) (approvals : List ApprovalRow)
      (h : ∀ a ∈ approvals, (∃ b ∈ s.approvals, b.transactionId = a.transactionId) ∨
        s.Recorded a.transactionId) :
      TableStep env key s { s with approvals }
  | previews (s : Tables) (previews : List (String × PreviewEnvelope)) :
      TableStep env key s { s with previews }
  | event (s : Tables) (clock : Clock) (kind : AuditEventKind) {t : String} (digest : String)
      {identity : EventIdentity} (ht : s.Recorded t)
      (hidentity : identity = .legacyV1 ∨ ∃ p : CallerPrincipal, identity = .v2 p.asSignedStr) :
      TableStep env key s (appendEvent clock key kind t digest identity s)
  | insert (s : Tables) (clock : Clock) (t : String) (tx : NewTransaction) :
      TableStep env key s
        { s with transactions := s.transactions ++ [newRow env clock key t tx s] }

/-- Both chains are written under the key, and events and approvals are about recorded
transactions. -/
structure Honest (key : AuditKey) (s : Tables) : Prop where
  written : Written key s.chainRows s.events
  events : ∀ e ∈ s.events, s.Recorded e.transactionId
  approvals : ∀ a ∈ s.approvals, s.Recorded a.transactionId

section Steps

variable {env : StoreEnv} {clock : Clock} {key : AuditKey} {s s' : Tables} {t : String}

theorem recorded_setStatusWhere {p : TransactionRow → Bool} {status : JobState} :
    (s.setStatusWhere p status).2.Recorded t ↔ s.Recorded t := by
  have hlookup : (s.setStatusWhere p status).2.findTransaction t =
      (s.findTransaction t).map fun r => if p r then { r with status } else r :=
    Table.lookup_updateWhere (f := fun r : TransactionRow => { r with status }) (fun _ => rfl) t
  rw [Tables.Recorded, hlookup, Option.isSome_map]
  rfl

theorem recorded_concat {row : TransactionRow} (h : s.Recorded t) :
    { s with transactions := s.transactions ++ [row] }.Recorded t := by
  have hlookup : Tables.findTransaction { s with transactions := s.transactions ++ [row] } t =
      (s.findTransaction t).or (if row.transactionId = t then some row else none) :=
    Table.lookup_concat t
  rw [Tables.Recorded, hlookup, Option.isSome_or, h]
  rfl

/-- A row count of a statement that pins `t` exhibits the row. -/
theorem recorded_of_count_pos {p : TransactionRow → Bool}
    (hp : ∀ r, p r = true → r.transactionId = t) (hcount : 0 < s.transactions.countP p) :
    s.Recorded t := by
  obtain ⟨r, hr, hpr⟩ := List.countP_pos_iff.mp hcount
  rw [Tables.Recorded, Option.isSome_iff_ne_none]
  intro hnone
  exact Table.lookup_eq_none.mp hnone r hr (hp r hpr)

/-- An appended event is signed over exactly its own columns. -/
theorem written_appendEvent {kind : AuditEventKind} {digest : String} {identity : EventIdentity}
    (h : Written key s.chainRows s.events)
    (hidentity : identity = .legacyV1 ∨ ∃ p : CallerPrincipal, identity = .v2 p.asSignedStr) :
    Written key (appendEvent clock key kind t digest identity s).chainRows
      (appendEvent clock key kind t digest identity s).events := by
  refine .event h rfl rfl ?_
  rcases hidentity with rfl | ⟨p, rfl⟩
  · exact ⟨_, ⟨kind, .legacyV1, parseEventKind_eq_some_iff.mpr rfl, rfl, rfl⟩, rfl⟩
  · refine ⟨_, ⟨kind, .v2 p.asSignedStr, parseEventKind_eq_some_iff.mpr rfl, ?_, rfl⟩, rfl⟩
    have hprincipal : (some p.asSignedStr).filter (· ≠ "") = some p.asSignedStr := by
      simp [CallerPrincipal.asSignedStr_ne_empty]
    simp only [EventRow.identity, EventIdentity.version]
    rw [hprincipal]
    rfl

/-- No write takes a transaction away. -/
theorem recorded_of_steps (hsteps : ReflTransGen (TableStep env key) s s') (h : s.Recorded t) :
    s'.Recorded t := by
  induction hsteps with
  | refl => exact h
  | tail _ hstep ih =>
    cases hstep with
    | status p status => exact recorded_setStatusWhere.mpr ih
    | approvals => exact ih
    | previews => exact ih
    | event => exact ih
    | insert => exact recorded_concat ih

/-- Every write keeps an honest store honest. -/
theorem Honest.step (h : Honest key s) (hstep : TableStep env key s s') : Honest key s' := by
  cases hstep with
  | status p status =>
    refine ⟨?_, fun e he => ?_, fun a ha => ?_⟩
    · rw [chainRows_setStatusWhere]
      exact h.written
    · exact recorded_setStatusWhere.mpr (h.events e he)
    · exact recorded_setStatusWhere.mpr (h.approvals a ha)
  | approvals approvals hnew =>
    refine ⟨h.written, h.events, fun a ha => ?_⟩
    rcases hnew a ha with ⟨b, hb, hid⟩ | hrecorded
    · exact hid ▸ h.approvals b hb
    · exact hrecorded
  | previews previews => exact ⟨h.written, h.events, h.approvals⟩
  | event clock kind digest ht hidentity =>
    refine ⟨written_appendEvent h.written hidentity, fun e he => ?_, h.approvals⟩
    rcases List.mem_append.mp he with he | he
    · exact h.events e he
    · rw [List.mem_singleton.mp he]
      exact ht
  | insert clock t tx =>
    refine ⟨?_, fun e he => recorded_concat (h.events e he),
      fun a ha => recorded_concat (h.approvals a ha)⟩
    have hrows : Tables.chainRows { s with transactions := s.transactions ++
        [newRow env clock key t tx s] } =
          s.chainRows ++ [(newRow env clock key t tx s).toChainRow] := by
      simp [Tables.chainRows]
    rw [hrows]
    refine .row h.written rfl rfl (signedRow_newRow tx) fun tip htip => ?_
    exact (Option.some.inj htip).symm

theorem Honest.steps (h : Honest key s) (hsteps : ReflTransGen (TableStep env key) s s') :
    Honest key s' := by
  induction hsteps with
  | refl => exact h
  | tail _ hstep ih => exact ih.step hstep

end Steps

/-! ### The operations as writes -/

section Operations

variable {env : StoreEnv} {clock : Clock} {key : AuditKey} {s s' : Tables} {t : String}

theorem eq_of_requireKey {message : String} {k : AuditKey} (hkey : env.auditKey = some key)
    (h : requireKey env message = .ok k) : key = k := by
  rw [requireKey, hkey] at h
  exact Except.ok.inj h

theorem steps_insert {tx : NewTransaction} {rec_ : TransactionRecord}
    (h : insertTransaction env clock key t tx s = .ok (rec_, s')) :
    ReflTransGen (TableStep env key) s s' := by
  unfold insertTransaction at h
  split_ifs at h
  obtain ⟨-, rfl⟩ := Prod.mk.inj (Except.ok.inj h)
  exact .single (.insert s clock t tx)

theorem steps_updateStatus (hkey : env.auditKey = some key) {new : JobState} {u : Unit}
    (h : updateStatus env clock t new s = .ok (u, s')) :
    ReflTransGen (TableStep env key) s s' := by
  unfold updateStatus at h
  split at h
  · cases h
  · rename_i row hrow
    simp only at h
    split_ifs at h with hallowed hcount
    obtain ⟨k, hk, h⟩ := exists_of_bind_eq_ok h
    obtain rfl := eq_of_requireKey hkey hk
    obtain ⟨-, rfl⟩ := Prod.mk.inj (Except.ok.inj h)
    have hrecorded : s.Recorded t := by rw [Tables.Recorded, hrow, Option.isSome_some]
    refine .tail ?_ (.event _ clock _ "" (recorded_setStatusWhere.mpr hrecorded) (.inl rfl))
    exact .single (.status s _ new)

theorem steps_revokeInTx {who : CallerPrincipal} {b : Bool}
    (hs : ∀ a ∈ s.approvals, s.Recorded a.transactionId)
    (h : revokeUnconsumedApprovalInTx clock key t who.asSignedStr s = .ok (b, s')) :
    ReflTransGen (TableStep env key) s s' := by
  have hdelete : TableStep env key s
      { s with approvals := (Table.deleteWhere (ApprovalRow.unconsumedOf t) s.approvals).2 } :=
    .approvals s _ fun a ha => .inl ⟨a, List.mem_of_mem_filter ha, rfl⟩
  unfold revokeUnconsumedApprovalInTx at h
  simp only at h
  split_ifs at h with hcount
  · split at h
    · cases h
    · obtain ⟨-, rfl⟩ := Prod.mk.inj (Except.ok.inj h)
      -- a deleted approval was of `t`, and approvals are of recorded transactions
      obtain ⟨a, ha, hunconsumed⟩ := List.countP_pos_iff.mp hcount
      have hid : a.transactionId = t := by
        simp only [ApprovalRow.unconsumedOf, Bool.and_eq_true, beq_iff_eq] at hunconsumed
        exact hunconsumed.1
      have hrecorded : s.Recorded t := hid ▸ hs a ha
      exact .tail (.single hdelete) (.event _ clock _ _ hrecorded (.inr ⟨who, rfl⟩))
  · obtain ⟨-, rfl⟩ := Prod.mk.inj (Except.ok.inj h)
    exact .single hdelete

theorem steps_claim (hkey : env.auditKey = some key) {digest : String}
    {executor : CallerPrincipal} {b : Bool}
    (h : claimApprovedForExecution env clock t digest executor s = .ok (b, s')) :
    ReflTransGen (TableStep env key) s s' := by
  obtain ⟨k, hk, h⟩ := exists_of_bind_eq_ok h
  obtain rfl := eq_of_requireKey hkey hk
  simp only at h
  split_ifs at h with hcount
  · obtain ⟨-, rfl⟩ := Prod.mk.inj (Except.ok.inj h)
    have hrecorded : s.Recorded t := recorded_of_count_pos
      (fun r hr => by simp only [Bool.and_eq_true, beq_iff_eq] at hr; exact hr.1.1.1) hcount
    have hmoved (p : TransactionRow → Bool) : (s.setStatusWhere p .running).2.Recorded t :=
      recorded_setStatusWhere.mpr hrecorded
    refine .tail ?_ (.event _ clock _ "" ?_ (.inl rfl))
    · refine .tail ?_ (.event _ clock _ digest ?_ (.inr ⟨executor, rfl⟩))
      · refine .tail (.single (.status s _ .running)) (.approvals _ _ fun a ha => ?_)
        obtain ⟨b, hb, rfl⟩ := List.mem_map.mp ha
        refine .inl ⟨b, hb, ?_⟩
        split_ifs <;> rfl
      · exact hmoved _
    · exact hmoved _
  · obtain ⟨-, rfl⟩ := Prod.mk.inj (Except.ok.inj h)
    exact .single (.status s _ .running)

theorem steps_approve (hkey : env.auditKey = some key) {approver : CallerPrincipal}
    {receipt : Option String} (h : approveTransaction env clock t approver s = .ok (receipt, s')) :
    ReflTransGen (TableStep env key) s s' := by
  obtain ⟨k, hk, h⟩ := exists_of_bind_eq_ok h
  obtain rfl := eq_of_requireKey hkey hk
  split at h
  · obtain ⟨-, rfl⟩ := Prod.mk.inj (Except.ok.inj h)
    exact .refl
  rename_i rec_ hrec
  have hrecorded : s.Recorded t := by
    rw [Tables.Recorded, ← Option.isSome_map (f := TransactionRow.toRecord)]
    exact Option.isSome_of_eq_some hrec
  simp only at h
  split at h
  · cases h
  -- the approvals that are added belong to rows of `t`
  have hnew (p : TransactionRow → Bool) (hp : ∀ r, p r = true → r.transactionId = t)
      (digest : String) : TableStep env key s
        { s with
          approvals := s.approvals ++ (s.transactions.filter p).map fun r =>
            ⟨r.transactionId, digest, none⟩ } := by
    refine .approvals s _ fun a ha => ?_
    rcases List.mem_append.mp ha with ha | ha
    · exact .inl ⟨a, ha, rfl⟩
    · obtain ⟨r, hr, rfl⟩ := List.mem_map.mp ha
      have hid := hp r (List.mem_filter.mp hr).2
      exact .inr (hid.symm ▸ hrecorded)
  have hpinned (r : TransactionRow) (h : (r.transactionId == t && r.status == .queued &&
      withinTtl env clock r.createdAt && (s.findApproval t).isNone) = true) :
      r.transactionId = t := by
    simp only [Bool.and_eq_true, beq_iff_eq] at h
    exact h.1.1.1
  split_ifs at h
  · obtain ⟨-, rfl⟩ := Prod.mk.inj (Except.ok.inj h)
    refine .tail ?_ (.event _ clock _ _ hrecorded (.inr ⟨approver, rfl⟩))
    exact .single (hnew _ hpinned _)
  · obtain ⟨-, rfl⟩ := Prod.mk.inj (Except.ok.inj h)
    exact .single (hnew _ hpinned _)

theorem steps_cancelInTx {who : CallerPrincipal} {n : ℕ} (hs : Honest key s)
    (h : cancelQueuedInTx clock key t who.asSignedStr s = .ok (n, s')) :
    ReflTransGen (TableStep env key) s s' := by
  unfold cancelQueuedInTx at h
  simp only at h
  have hstatus : TableStep env key s (s.setStatusWhere
      (fun r => r.transactionId == t && r.status == .queued) .canceled).2 := .status s _ .canceled
  split_ifs at h with hcount
  · obtain ⟨⟨b, s₁⟩, hrevoke, h⟩ := exists_of_bind_eq_ok h
    obtain ⟨-, rfl⟩ := Prod.mk.inj (Except.ok.inj h)
    have hrecorded : s.Recorded t := recorded_of_count_pos
      (fun r hr => by simp only [Bool.and_eq_true, beq_iff_eq] at hr; exact hr.1) hcount
    have hsteps : ReflTransGen (TableStep env key) s s₁ :=
      .head hstatus (steps_revokeInTx (hs.step hstatus).approvals hrevoke)
    exact .tail hsteps (.event _ clock _ "" (recorded_of_steps hsteps hrecorded) (.inl rfl))
  · obtain ⟨-, rfl⟩ := Prod.mk.inj (Except.ok.inj h)
    exact .single hstatus

theorem steps_cancelEach {ids : List String} {k n : ℕ} (hs : Honest key s)
    (h : cancelEach clock key ids k s = .ok (n, s')) :
    ReflTransGen (TableStep env key) s s' := by
  induction ids generalizing k s with
  | nil =>
    obtain ⟨-, rfl⟩ := Prod.mk.inj (Except.ok.inj h)
    exact .refl
  | cons id ids ih =>
    obtain ⟨⟨m, s₁⟩, hcancel, hrest⟩ := exists_of_bind_eq_ok h
    have hstep : ReflTransGen (TableStep env key) s s₁ := steps_cancelInTx hs hcancel
    exact hstep.trans (ih (hs.steps hstep) hrest)

theorem steps_failEach (hkey : env.auditKey = some key) {ids : List String} :
    ReflTransGen (TableStep env key) s (failEach env clock ids s).2 := by
  induction ids generalizing s with
  | nil => exact .refl
  | cons id ids ih =>
    unfold failEach
    split
    · exact .refl
    · rename_i s₁ hupdate
      exact (steps_updateStatus hkey hupdate).trans ih

theorem steps_reconcilePages (hkey : env.auditKey = some key) {rounds total : ℕ} :
    ReflTransGen (TableStep env key) s (reconcilePages env clock rounds total s).2 := by
  induction rounds generalizing total s with
  | zero => exact .refl
  | succ rounds ih =>
    unfold reconcilePages
    have hpage : ReflTransGen (TableStep env key) s (failEach env clock s.runningPage s).2 :=
      steps_failEach hkey
    simp only
    split
    · exact .refl
    · split
      · rename_i hfail
        rw [hfail] at hpage
        exact hpage
      · rename_i hfail
        rw [hfail] at hpage
        split
        · exact hpage
        · exact hpage.trans ih

/-- **An operation is a sequence of writes.** -/
theorem steps_apply (hkey : env.auditKey = some key) (hs : Honest key s) (op : StoreOp) :
    ReflTransGen (TableStep env key) s (op.apply env clock s) := by
  have hcommitted {α : Type} {r : Except StoreError (α × Tables)}
      (h : ∀ a s', r = .ok (a, s') → ReflTransGen (TableStep env key) s s') :
      ReflTransGen (TableStep env key) s (committed s r) := by
    cases r with
    | error e => exact .refl
    | ok r => exact h r.1 r.2 rfl
  cases op with
  | record id tx =>
    refine hcommitted fun _ _ h => ?_
    obtain ⟨k, hk, h⟩ := exists_of_bind_eq_ok h
    obtain rfl := eq_of_requireKey hkey hk
    exact steps_insert h
  | recordPreviewed id tx preview =>
    refine hcommitted fun _ _ h => ?_
    obtain ⟨k, hk, h⟩ := exists_of_bind_eq_ok h
    obtain rfl := eq_of_requireKey hkey hk
    obtain ⟨⟨rec_, s₁⟩, hinsert, h⟩ := exists_of_bind_eq_ok h
    obtain ⟨-, rfl⟩ := Prod.mk.inj (Except.ok.inj h)
    exact .tail (steps_insert hinsert) (.previews s₁ _)
  | approve id approver => exact hcommitted fun _ _ => steps_approve hkey
  | revoke id revoker =>
    refine hcommitted fun _ _ h => ?_
    obtain ⟨k, hk, h⟩ := exists_of_bind_eq_ok h
    obtain rfl := eq_of_requireKey hkey hk
    exact steps_revokeInTx hs.approvals h
  | claim id digest executor => exact hcommitted fun _ _ => steps_claim hkey
  | updateStatus id status => exact hcommitted fun _ _ => steps_updateStatus hkey
  | cancelQueued id canceller =>
    refine hcommitted fun _ _ h => ?_
    obtain ⟨k, hk, h⟩ := exists_of_bind_eq_ok h
    obtain rfl := eq_of_requireKey hkey hk
    obtain ⟨⟨n, s₁⟩, hcancel, h⟩ := exists_of_bind_eq_ok h
    obtain ⟨-, rfl⟩ := Prod.mk.inj (Except.ok.inj h)
    exact steps_cancelInTx hs hcancel
  | cleanup =>
    refine hcommitted fun _ _ h => ?_
    obtain ⟨k, hk, h⟩ := exists_of_bind_eq_ok h
    obtain rfl := eq_of_requireKey hkey hk
    exact steps_cancelEach hs h
  | reconcile => exact steps_reconcilePages hkey

end Operations

/-! ### The verifiers accept what was written -/

section Verifiers

variable {key : AuditKey} {rows : List ChainRow} {events : List EventRow}

theorem checkRow_of_signedRow (hsign : ∀ m, key.verifyingKey m (key.sign m) = true)
    {expectKeyId : Option String} {row : ChainRow} (h : SignedRow key row) :
    checkRow key.verifyingKey expectKeyId row = .verified := by
  obtain ⟨identity, hidentity, hhash⟩ := h
  have hok : signatureOk key.verifyingKey
      (chainMessage (row.contentWith identity) row.prevChainHash) row.chainHash = true := by
    rw [hhash]
    exact signatureOk_encode (hsign _)
  simp only [checkRow, hidentity, hok, if_true]

theorem checkEvent_of_signedEvent (hsign : ∀ m, key.verifyingKey m (key.sign m) = true)
    {expectKeyId : Option String} {row : EventRow} (h : SignedEvent key row) :
    checkEvent key.verifyingKey expectKeyId row = .verified := by
  obtain ⟨e, ⟨kind, identity, hkind, hidentity, rfl⟩, hhash⟩ := h
  have hok : signatureOk key.verifyingKey
      (eventMessage (row.contentWith kind identity) row.prevChainHash) row.chainHash = true := by
    rw [hhash]
    exact signatureOk_encode (hsign _)
  simp only [checkEvent, hkind, hidentity, hok, if_true]

/-- A chain is walked to its end when its rows pass. -/
theorem walkChain_of_chained {R : Type} [ChainLink R] {Signed : R → Prop} {check : R → RowCheck}
    {rows : List R} (h : Chained Signed rows) (hcheck : ∀ r, Signed r → check r = .verified) :
    walkChain check rows = .intact rows.length := by
  have hsigned : ∀ r ∈ rows, check r = .verified := by
    intro r hr
    obtain ⟨pre, post, hsplit⟩ := List.append_of_mem hr
    exact hcheck r (h.split hsplit).2.2.2
  rw [walkChain, walkFrom_intact h.linksFrom hsigned, Nat.zero_add]

theorem Written.binding (h : Written key rows events) :
    ∃ n, verifyEventBinding rows events = .consistent n := by
  refine exists_bindingFrom_eq_consistent_iff.mpr fun row hrow tip htip hne => ?_
  obtain ⟨before, hbefore, hb⟩ := h.exists_before hrow htip
  rcases List.eq_nil_or_concat before with rfl | ⟨before, last, rfl⟩
  · exact absurd hb.symm hne
  · rw [List.concat_eq_append, tipOf_concat] at hb
    have hlast : last ∈ events := hbefore.subset (by simp)
    exact List.mem_map.mpr ⟨last, hlast, hb⟩

end Verifiers

/-! ### Agreement is kept -/

/-- What the cross-check asks of the events of a transaction in status `st`. -/
def SoundHistory (history : List String) (st : JobState) : Prop :=
  match (history.filter likeStatus).getLast? with
  | none => st = .queued ∧ "approval_consumed" ∉ history
  | some newest => newest = (AuditEventKind.ofJobState st).asStr

theorem sound_evidence_iff_soundHistory {s : Tables} {t : String} {st : JobState} :
    (s.evidence t st).Sound ↔ SoundHistory (s.historyOf t) st := by
  cases h : ((s.historyOf t).filter likeStatus).getLast? <;>
    simp [StatusEvidence.Sound, SoundHistory, Tables.evidence, newestStatusEvent_eq,
      approvalConsumed_eq, h]

/-- Events that are no status events and spend nothing leave the verdict alone. -/
theorem soundHistory_concat_iff {history : List String} {st : JobState} {k : AuditEventKind}
    (hk : isStatus k = false) (hne : k ≠ .approvalConsumed) :
    SoundHistory (history ++ [k.asStr]) st ↔ SoundHistory history st := by
  have hspelling : "approval_consumed" ≠ k.asStr :=
    fun h => hne (AuditEventKind.asStr_injective h.symm)
  have hfilter : (history ++ [k.asStr]).filter likeStatus = history.filter likeStatus := by
    simp [likeStatus_asStr, hk]
  simp [SoundHistory, hfilter, hspelling]

theorem soundHistory_concat_status (history : List String) (st : JobState) :
    SoundHistory (history ++ [(AuditEventKind.ofJobState st).asStr]) st := by
  simp [SoundHistory, likeStatus_asStr, isStatus_ofJobState]

/-- One step of a life keeps its events sound. -/
theorem soundHistory_step {history : List String} {l l' : Life} {ks : List AuditEventKind}
    (h : SoundHistory history l.status) (hstep : LifeStep l ks l') :
    SoundHistory (history ++ ks.map AuditEventKind.asStr) l'.status := by
  cases hstep with
  | grant => exact (soundHistory_concat_iff rfl (by decide)).mpr h
  | revoke st => exact (soundHistory_concat_iff rfl (by decide)).mpr h
  | claim =>
    have hsplit : history ++ [AuditEventKind.approvalConsumed, .statusRunning].map
        AuditEventKind.asStr = (history ++ [AuditEventKind.approvalConsumed.asStr]) ++
          [(AuditEventKind.ofJobState .running).asStr] := by
      simp [AuditEventKind.ofJobState]
    rw [hsplit]
    exact soundHistory_concat_status _ .running
  | @move st st' a hallowed => exact soundHistory_concat_status history st'

theorem soundHistory_path {history : List String} {l l' : Life} {ks : List AuditEventKind}
    (h : SoundHistory history l.status) (hpath : LifePath l ks l') :
    SoundHistory (history ++ ks.map AuditEventKind.asStr) l'.status := by
  induction hpath generalizing history with
  | refl l => simpa using h
  | step hstep _ ih =>
    rw [List.map_append, ← List.append_assoc]
    exact ih (soundHistory_step h hstep)

/-- The events of every transaction support its status, and only recorded transactions have
any. -/
structure Agreeing (s : Tables) : Prop where
  grounded : Grounded s
  sound : ∀ t st, s.statusOf t = some st → SoundHistory (s.historyOf t) st
  silent : ∀ t, s.statusOf t = none → s.historyOf t = []

section Agreeing

variable {env : StoreEnv} {clock : Clock} {s s' : Tables}

theorem Agreeing.touch {target : JobState → Prop} (h : Agreeing s) (htouch : Touch target s s') :
    Agreeing s' := by
  have hgrounded := htouch.grounded h.grounded
  obtain ⟨hst, hpath, htouched, -⟩ := htouch
  rename_i t st l ks
  refine ⟨hgrounded, fun t' st' hst' => ?_, fun t' hst' => ?_⟩
  · by_cases ht : t' = t
    · subst ht
      obtain rfl := Option.some.inj (htouched.status.symm.trans hst')
      rw [htouched.history]
      exact soundHistory_path (l := ⟨st, s.approvalOf t'⟩) (h.sound t' st hst) hpath
    · rw [(htouched.frame t' ht).history]
      exact h.sound t' st' ((htouched.frame t' ht).status.symm.trans hst')
  · by_cases ht : t' = t
    · subst ht
      rw [htouched.status] at hst'
      cases hst'
    · rw [(htouched.frame t' ht).history]
      exact h.silent t' ((htouched.frame t' ht).status.symm.trans hst')

theorem Agreeing.records {t : String} (h : Agreeing s) (hst : s.statusOf t = none)
    (htouched : Tables.Touched s s' t ⟨.queued, s.approvalOf t⟩ []) : Agreeing s' := by
  have hhistory : s'.historyOf t = [] := by
    rw [htouched.history, h.silent t hst]
    rfl
  refine ⟨⟨htouched.keyed, fun t' hgranted => ?_⟩, fun t' st' hst' => ?_, fun t' hst' => ?_⟩
  · by_cases ht : t' = t
    · exact ⟨.queued, ht ▸ htouched.status⟩
    · rw [(htouched.frame t' ht).approval] at hgranted
      rw [(htouched.frame t' ht).status]
      exact h.grounded.recorded t' hgranted
  · by_cases ht : t' = t
    · subst ht
      obtain rfl := Option.some.inj (htouched.status.symm.trans hst')
      rw [hhistory]
      exact ⟨rfl, List.not_mem_nil⟩
    · rw [(htouched.frame t' ht).history]
      exact h.sound t' st' ((htouched.frame t' ht).status.symm.trans hst')
  · by_cases ht : t' = t
    · exact ht ▸ hhistory
    · rw [(htouched.frame t' ht).history]
      exact h.silent t' ((htouched.frame t' ht).status.symm.trans hst')

theorem Agreeing.touches {target : JobState → Prop} (h : Agreeing s)
    (htouches : ReflTransGen (Touch target) s s') : Agreeing s' := by
  induction htouches with
  | refl => exact h
  | tail _ htouch ih => exact ih.touch htouch

/-- **No operation loses agreement.** -/
theorem agreeing_apply (h : Agreeing s) (op : StoreOp) : Agreeing (op.apply env clock s) := by
  have heffect : Effect s (op.apply env clock s) := effect_apply h.grounded op
  cases heffect with
  | one htouch => exact h.touches htouch.to_reflTransGen
  | many _ htouches => exact h.touches htouches
  | records hst htouched => exact h.records hst htouched

/-- Agreement of the cross-check, in terms of histories. -/
theorem agreeing_of_agrees {key : AuditKey} {n : ℕ} (hs : Honest key s) (hkeyed : s.Keyed)
    (h : statusMatchesChain s = .ok (.agrees n)) : Agreeing s := by
  have hrows := (statusMatchesChainOf_agrees_iff.mp h).2
  refine ⟨⟨hkeyed, fun t hgranted => ?_⟩, fun t st hst => ?_, fun t hst => ?_⟩
  · obtain ⟨a, ha, -⟩ := approvalOf_eq_granted.mp hgranted
    have hrecorded := hs.approvals a (Table.mem_of_lookup ha)
    rw [Table.key_of_lookup ha] at hrecorded
    obtain ⟨r, hr⟩ := Option.isSome_iff_exists.mp hrecorded
    exact ⟨r.status, by rw [Tables.statusOf, hr, Option.map_some]⟩
  · obtain ⟨r, hr, rfl⟩ := Option.map_eq_some_iff.mp hst
    obtain ⟨status, hstatus, hsound⟩ := hrows r (Table.mem_of_lookup hr)
    obtain rfl := Option.some.inj hstatus
    rw [Table.key_of_lookup hr] at hsound
    exact sound_evidence_iff_soundHistory.mp hsound
  · -- an event of `t` would be about a recorded transaction
    rw [Tables.historyOf, List.map_eq_nil_iff, List.filter_eq_nil_iff]
    intro e he hid
    have hrecorded := hs.events e he
    rw [beq_iff_eq.mp hid] at hrecorded
    rw [Tables.statusOf, Option.map_eq_none_iff] at hst
    rw [Tables.Recorded, hst] at hrecorded
    cases hrecorded

theorem agrees_of_agreeing (h : Agreeing s) :
    statusMatchesChain s = .ok (.agrees s.transactions.length) := by
  refine statusMatchesChainOf_agrees_iff.mpr ⟨rfl, fun r hr => ⟨r.status, rfl, ?_⟩⟩
  exact sound_evidence_iff_soundHistory.mpr
    (h.sound r.transactionId r.status (statusOf_of_mem h.grounded.keyed hr))

end Agreeing

/-! ### Every sequence of operations -/

/-- The tables after a sequence of operations on a store that may have a past. -/
def runFrom (env : StoreEnv) (s : Tables) (ops : List (Clock × StoreOp)) : Tables :=
  ops.foldl (fun s op => op.2.apply env op.1 s) s

section Runs

variable {env : StoreEnv} {key : AuditKey} {s : Tables}

theorem honest_runFrom (hkey : env.auditKey = some key) (hs : Honest key s)
    (ops : List (Clock × StoreOp)) : Honest key (runFrom env s ops) := by
  induction ops generalizing s with
  | nil => exact hs
  | cons op ops ih => exact ih (hs.steps (steps_apply hkey hs op.2))

theorem agreeing_runFrom (hs : Agreeing s) (ops : List (Clock × StoreOp)) :
    Agreeing (runFrom env s ops) := by
  induction ops generalizing s with
  | nil => exact hs
  | cons op ops ih => exact ih (agreeing_apply hs op.2)

theorem Honest.empty : Honest key .empty :=
  ⟨.nil, fun _ he => absurd he List.not_mem_nil, fun _ ha => absurd ha List.not_mem_nil⟩

/-- **Honest stores verify.** Whatever operations run on a store whose rows and events so far
are correctly signed, in any generation, or on a new one: both chains verify as intact and the
binding is consistent; and the cross-check agrees if it did before. It does on a new store. -/
theorem honest_stores_verify (hkey : env.auditKey = some key)
    (hsign : ∀ m, key.verifyingKey m (key.sign m) = true) (s : Tables) (hs : Honest key s)
    (hkeyed : s.Keyed) (ops : List (Clock × StoreOp)) :
    verifyChain key (runFrom env s ops).chainRows =
        .intact (runFrom env s ops).chainRows.length ∧
      verifyEventChain key (runFrom env s ops).events =
        .intact (runFrom env s ops).events.length ∧
      (∃ n, verifyEventBinding (runFrom env s ops).chainRows (runFrom env s ops).events =
        .consistent n) ∧
      (s = .empty ∨ (∃ n, statusMatchesChain s = .ok (.agrees n)) →
        ∃ n, statusMatchesChain (runFrom env s ops) = .ok (.agrees n)) := by
  have hhonest := honest_runFrom hkey hs ops
  refine ⟨?_, ?_, hhonest.written.binding, fun hstart => ?_⟩
  · exact walkChain_of_chained (appended_iff_chained.mp hhonest.written.appended)
      fun _ => checkRow_of_signedRow hsign
  · exact walkChain_of_chained hhonest.written.chained fun _ => checkEvent_of_signedEvent hsign
  · have hbefore : ∃ n, statusMatchesChain s = .ok (.agrees n) := by
      rcases hstart with rfl | hbefore
      · exact ⟨0, rfl⟩
      · exact hbefore
    obtain ⟨n, hn⟩ := hbefore
    exact ⟨_, agrees_of_agreeing (agreeing_runFrom (agreeing_of_agrees hs hkeyed hn) ops)⟩

end Runs

/-! ### A store of an earlier release -/

/-- A key that accepts exactly the signatures it makes. -/
def plainKey : AuditKey := ⟨"v1", checksum, fun m sig => decide (sig = checksum m)⟩

/-- A store opened with that key, in which the clock stands still. -/
def plainEnv : StoreEnv := { sampleEnv with auditKey := some plainKey }

/-- A transaction of the first generation that was canceled when cancellations left no event. -/
def legacyRow : TransactionRow where
  seq := 1
  keyId := "v1"
  transactionId := "tx-0"
  requestId := "req-0"
  requestHash := "h0"
  actionName := "UpdateSystem"
  riskLevel := .high
  summary := "Update"
  approvalId := some "d0"
  warningsJson := "[]"
  createdAt := "2025-01-01T00:00:00.000Z"
  prevChainHash := ""
  chainHash := Hex.encode (checksum (chainMessage
    ⟨1, "v1", "tx-0", "req-0", "h0", "UpdateSystem", .high, "Update", some "d0", "[]",
      "2025-01-01T00:00:00.000Z", .legacyV1⟩ "")).1
  chainVersion := 1
  callerRole := none
  eventTip := none
  callerPrincipal := none
  warnings := []
  status := .canceled

/-- The store of the legacy transaction. -/
def legacyTables : Tables := { Tables.empty with transactions := [legacyRow] }

theorem honest_legacyTables : Honest plainKey legacyTables where
  written := by
    have hrow : Written plainKey ([] ++ [legacyRow.toChainRow]) [] :=
      .row .nil rfl rfl ⟨.legacyV1, rfl, rfl⟩ (fun tip htip => by cases htip)
    exact hrow
  events _ he := absurd he List.not_mem_nil
  approvals _ ha := absurd ha List.not_mem_nil

theorem keyed_legacyTables : legacyTables.Keyed := ⟨List.nodup_singleton _, List.nodup_nil⟩

/-- On a new store and after the sample operations all four checks pass; on the legacy store the
first three do. -/
theorem sampleOps_verify :
    verifyChain plainKey (runFrom plainEnv .empty sampleOps).chainRows =
        .intact (runFrom plainEnv .empty sampleOps).chainRows.length ∧
      (∃ n, statusMatchesChain (runFrom plainEnv .empty sampleOps) = .ok (.agrees n)) ∧
      verifyChain plainKey (runFrom plainEnv legacyTables sampleOps).chainRows =
        .intact (runFrom plainEnv legacyTables sampleOps).chainRows.length := by
  have hsign : ∀ m, plainKey.verifyingKey m (plainKey.sign m) = true := fun m => decide_eq_true rfl
  have hkey : plainEnv.auditKey = some plainKey := rfl
  have hempty := honest_stores_verify hkey hsign .empty Honest.empty
    ⟨List.nodup_nil, List.nodup_nil⟩ sampleOps
  have hlegacy := honest_stores_verify hkey hsign legacyTables honest_legacyTables
    keyed_legacyTables sampleOps
  exact ⟨hempty.1, hempty.2.2.2 (.inl rfl), hlegacy.1⟩

/-- **What no signature can tell.** A legacy transaction that was canceled without an event is
reported as unproven, not as agreeing, although everything in the store is correctly signed. -/
theorem legacy_cancellation_unproven :
    ¬ ∀ (env : StoreEnv) (key : AuditKey), env.auditKey = some key →
      (∀ m, key.verifyingKey m (key.sign m) = true) →
      ∀ s, Honest key s → s.Keyed → (∀ r ∈ s.transactions, r.chainVersion ≤ 3) →
        ∀ ops, ∃ n, statusMatchesChain (runFrom env s ops) = .ok (.agrees n) := by
  intro hall
  obtain ⟨n, hn⟩ := hall plainEnv plainKey rfl (fun m => decide_eq_true rfl) legacyTables
    honest_legacyTables keyed_legacyTables (by decide) []
  have hsound := (statusMatchesChainOf_agrees_iff.mp hn).2 legacyRow (List.mem_singleton.mpr rfl)
  obtain ⟨status, hstatus, hqueued, -⟩ := hsound
  obtain rfl := Option.some.inj hstatus
  exact absurd hqueued (by decide)

end Sysknife.Store
