import Mathlib.Data.List.Count
import Mathlib.Data.List.Induction
import Mathlib.Logic.Relation
import Sysknife.Store.Life
import Sysknife.Store.Sqlite

/-!
# The store refines the life of each transaction

What a transaction looks like from outside is its status (`statusOf`), the state of its
approval (`approvalOf`) and the kinds of its events in order (`historyOf`). Each operation is
characterised once by what it does to these (`Touched`: one transaction changes, every other
keeps all three), and `Lives` says that every recorded transaction is at a point its history
leads to. The operations preserve `Lives` because what they touch is a step of `LifeStep`.

`lifecycle` collects what follows for every sequence of operations on a new store.
-/

namespace Sysknife.Store

open Audit

/-! ### Observations -/

namespace Tables

variable (s : Tables) (t : String)

/-- Stored status of a transaction. -/
def statusOf : Option JobState := (s.findTransaction t).map TransactionRow.status

/-- State of a transaction's approval. -/
def approvalOf : ApprovalState :=
  match s.findApproval t with
  | none => .absent
  | some a => if a.consumedAt.isNone then .granted else .consumed

/-- The kinds of a transaction's events, oldest first. -/
def historyOf : List String := (s.events.filter (·.transactionId == t)).map EventRow.kind

/-- The primary keys hold. -/
structure Keyed : Prop where
  transactions : Table.UniqueKey (fun r : TransactionRow => r.transactionId) s.transactions
  approvals : Table.UniqueKey ApprovalRow.transactionId s.approvals

/-- Nothing about the transaction differs between the two stores. -/
structure Same (s s' : Tables) (t : String) : Prop where
  status : s'.statusOf t = s.statusOf t
  approval : s'.approvalOf t = s.approvalOf t
  history : s'.historyOf t = s.historyOf t

theorem Same.rfl {s : Tables} {t : String} : Same s s t := ⟨.refl _, .refl _, .refl _⟩

/-- One transaction was brought to `l`, leaving the events `ks`; the others are as before. -/
structure Touched (s s' : Tables) (t : String) (l : Life) (ks : List AuditEventKind) : Prop where
  keyed : s'.Keyed
  status : s'.statusOf t = some l.status
  approval : s'.approvalOf t = l.approval
  history : s'.historyOf t = s.historyOf t ++ ks.map AuditEventKind.asStr
  frame : ∀ t', t' ≠ t → Same s s' t'

end Tables

open Tables

/-! ### Single statements -/

section Statements

variable {s : Tables} {t : String}

theorem approvalOf_eq_granted {s : Tables} {t : String} :
    s.approvalOf t = .granted ↔ ∃ a, s.findApproval t = some a ∧ a.consumedAt = none := by
  unfold approvalOf
  cases s.findApproval t with
  | none => simp
  | some a => simp

theorem approvalOf_eq_absent : s.approvalOf t = .absent ↔ s.findApproval t = none := by
  unfold approvalOf
  cases s.findApproval t with
  | none => simp
  | some a =>
    simp only [reduceCtorEq, iff_false]
    split_ifs <;> simp

/-- A status update that pins `t` and touched a row moved `t`, and met it in a row the
condition accepts. -/
theorem setStatusWhere_spec {p : TransactionRow → Bool} {status : JobState} (hs : s.Keyed)
    (hp : ∀ r, p r = true → r.transactionId = t)
    (hcount : 0 < (s.setStatusWhere p status).1) :
    (∃ r, s.findTransaction t = some r ∧ p r = true) ∧
      Touched s (s.setStatusWhere p status).2 t ⟨status, s.approvalOf t⟩ [] := by
  obtain ⟨r, hr, hpr⟩ := Table.lookup_of_count_pos hs.transactions hp hcount
  have hr : s.findTransaction t = some r := hr
  have hstatus (t' : String) : (s.setStatusWhere p status).2.statusOf t' =
      (s.findTransaction t').map fun r => if p r then status else r.status := by
    have h : (s.setStatusWhere p status).2.findTransaction t' =
        (s.findTransaction t').map fun r => if p r then { r with status } else r :=
      Table.lookup_updateWhere (f := fun r : TransactionRow => { r with status }) (fun _ => rfl) t'
    rw [statusOf, h, Option.map_map]
    congr 1
    funext r
    simp only [Function.comp]
    split_ifs <;> rfl
  refine ⟨⟨r, hr, hpr⟩, ⟨Table.uniqueKey_updateWhere (fun _ => rfl) hs.transactions, hs.approvals⟩,
    ?_, rfl, by simp [historyOf, setStatusWhere], fun t' ht' => ⟨?_, rfl, rfl⟩⟩
  · rw [hstatus, hr, Option.map_some, if_pos hpr]
  · rw [hstatus, statusOf]
    cases h : s.findTransaction t' with
    | none => rfl
    | some r' =>
      have hpr' : p r' = false := by
        by_contra hne
        exact ht' ((Table.key_of_lookup h).symm.trans (hp r' (by simpa using hne)))
      simp [hpr']

theorem setStatusWhere_of_zero {p : TransactionRow → Bool} {status : JobState}
    (h : ¬ 0 < (s.setStatusWhere p status).1) : (s.setStatusWhere p status).2 = s := by
  have hrows : (Table.updateWhere p (fun r => { r with status }) s.transactions).2 =
      s.transactions :=
    Table.updateWhere_of_count_zero (Nat.eq_zero_of_not_pos h)
  exact congrArg (fun rows => { s with transactions := rows }) hrows

/-- Appending an event of `t` extends its history and nothing else. -/
theorem Tables.Touched.appendEvent {s' : Tables} {l : Life} {ks : List AuditEventKind}
    (h : Touched s s' t l ks) (clock : Clock) (key : AuditKey) (kind : AuditEventKind)
    (digest : String) (identity : EventIdentity) :
    Touched s (Store.appendEvent clock key kind t digest identity s') t l (ks ++ [kind]) := by
  refine ⟨⟨h.keyed.transactions, h.keyed.approvals⟩, h.status, h.approval, ?_, fun t' ht' => ?_⟩
  · have hhist := h.history
    simp only [historyOf] at hhist ⊢
    simp [Store.appendEvent, hhist]
  · refine ⟨(h.frame t' ht').status, (h.frame t' ht').approval, ?_⟩
    rw [← (h.frame t' ht').history]
    simp [historyOf, Store.appendEvent, Ne.symm ht']

theorem Tables.Touched.trans {s₁ s₂ : Tables} {l₁ l₂ : Life} {ks₁ ks₂ : List AuditEventKind}
    (h₁ : Touched s s₁ t l₁ ks₁) (h₂ : Touched s₁ s₂ t l₂ ks₂) :
    Touched s s₂ t l₂ (ks₁ ++ ks₂) where
  keyed := h₂.keyed
  status := h₂.status
  approval := h₂.approval
  history := by rw [h₂.history, h₁.history, List.append_assoc, List.map_append]
  frame t' ht' :=
    ⟨(h₂.frame t' ht').status.trans (h₁.frame t' ht').status,
      (h₂.frame t' ht').approval.trans (h₁.frame t' ht').approval,
      (h₂.frame t' ht').history.trans (h₁.frame t' ht').history⟩

/-- Replacing the approvals keeps what is not read off them. -/
private theorem touched_of_approvals {approvals : List ApprovalRow} {st : JobState}
    {a : ApprovalState} (hs : s.Keyed) (hst : s.statusOf t = some st)
    (hkey : Table.UniqueKey ApprovalRow.transactionId approvals)
    (ha : { s with approvals := approvals }.approvalOf t = a)
    (hframe : ∀ t', t' ≠ t →
      Table.lookup ApprovalRow.transactionId t' approvals = s.findApproval t') :
    Touched s { s with approvals := approvals } t ⟨st, a⟩ [] := by
  refine ⟨⟨hs.transactions, hkey⟩, hst, ha, by simp [historyOf], fun t' ht' => ⟨rfl, ?_, rfl⟩⟩
  have h : { s with approvals := approvals }.findApproval t' = s.findApproval t' := hframe t' ht'
  rw [approvalOf, h, approvalOf]

private theorem unconsumedOf_eq_true {a : ApprovalRow} :
    a.unconsumedOf t = true ↔ a.transactionId = t ∧ a.consumedAt = none := by
  simp [ApprovalRow.unconsumedOf]

private theorem unconsumedOf_eq_false {a : ApprovalRow} {t' : String} (h : a.transactionId = t')
    (ht' : t' ≠ t) : a.unconsumedOf t = false := by
  simp [ApprovalRow.unconsumedOf, h, ht']

theorem insertApproval_touched {st : JobState} (hs : s.Keyed) (hst : s.statusOf t = some st)
    (habsent : s.approvalOf t = .absent) (digest : String) :
    Touched s { s with approvals := s.approvals ++ [⟨t, digest, none⟩] } t ⟨st, .granted⟩ [] := by
  have hnone : s.findApproval t = none := approvalOf_eq_absent.mp habsent
  have hlookup (t' : String) : Table.lookup ApprovalRow.transactionId t'
      (s.approvals ++ [⟨t, digest, none⟩]) =
        (s.findApproval t').or (if t = t' then some ⟨t, digest, none⟩ else none) :=
    Table.lookup_concat t'
  refine touched_of_approvals hs hst (Table.uniqueKey_concat hs.approvals hnone)
    (approvalOf_eq_granted.mpr ⟨⟨t, digest, none⟩, ?_, rfl⟩) fun t' ht' => ?_
  · refine (hlookup t).trans ?_
    rw [hnone, if_pos rfl, Option.none_or]
  · rw [hlookup t', if_neg (Ne.symm ht'), Option.or_none]

theorem deleteApproval_touched {st : JobState} (hs : s.Keyed) (hst : s.statusOf t = some st)
    (hgranted : s.approvalOf t = .granted) :
    Touched s { s with approvals := (Table.deleteWhere (ApprovalRow.unconsumedOf t) s.approvals).2 }
      t ⟨st, .absent⟩ [] := by
  obtain ⟨a, ha, hanone⟩ := approvalOf_eq_granted.mp hgranted
  have hlookup (t' : String) : Table.lookup ApprovalRow.transactionId t'
      (Table.deleteWhere (ApprovalRow.unconsumedOf t) s.approvals).2 =
        (s.findApproval t').filter fun a => !a.unconsumedOf t :=
    Table.lookup_deleteWhere hs.approvals t'
  refine touched_of_approvals hs hst (Table.uniqueKey_deleteWhere hs.approvals)
    (approvalOf_eq_absent.mpr ?_) fun t' ht' => ?_
  · have hua : a.unconsumedOf t = true := unconsumedOf_eq_true.mpr ⟨Table.key_of_lookup ha, hanone⟩
    refine (hlookup t).trans ?_
    rw [ha, Option.filter_some, if_neg (by simp [hua])]
  · rw [hlookup t']
    cases h : s.findApproval t' with
    | none => rfl
    | some a' =>
      rw [Option.filter_some, if_pos (by simp [unconsumedOf_eq_false (Table.key_of_lookup h) ht'])]

theorem consumeApproval_touched {st : JobState} (hs : s.Keyed) (hst : s.statusOf t = some st)
    (hgranted : s.approvalOf t = .granted) (now : String) :
    Touched s { s with approvals := (Table.updateWhere (ApprovalRow.unconsumedOf t)
      (fun a => { a with consumedAt := some now }) s.approvals).2 } t ⟨st, .consumed⟩ [] := by
  obtain ⟨a, ha, hanone⟩ := approvalOf_eq_granted.mp hgranted
  have hlookup (t' : String) : Table.lookup ApprovalRow.transactionId t'
      (Table.updateWhere (ApprovalRow.unconsumedOf t)
        (fun a => { a with consumedAt := some now }) s.approvals).2 =
        (s.findApproval t').map fun a =>
          if a.unconsumedOf t then { a with consumedAt := some now } else a :=
    Table.lookup_updateWhere (f := fun a : ApprovalRow => { a with consumedAt := some now })
      (fun _ => rfl) t'
  refine touched_of_approvals hs hst
    (Table.uniqueKey_updateWhere (f := fun a : ApprovalRow => { a with consumedAt := some now })
      (fun _ => rfl) hs.approvals) ?_ fun t' ht' => ?_
  · have hua : a.unconsumedOf t = true := unconsumedOf_eq_true.mpr ⟨Table.key_of_lookup ha, hanone⟩
    have h : { s with approvals := (Table.updateWhere (ApprovalRow.unconsumedOf t)
        (fun a => { a with consumedAt := some now }) s.approvals).2 }.findApproval t =
        some { a with consumedAt := some now } := by
      refine (hlookup t).trans ?_
      rw [ha, Option.map_some, if_pos hua]
    rw [approvalOf, h]
    rfl
  · rw [hlookup t']
    cases h : s.findApproval t' with
    | none => rfl
    | some a' =>
      rw [Option.map_some, if_neg (by simp [unconsumedOf_eq_false (Table.key_of_lookup h) ht'])]

end Statements

/-! ### The operations -/

section Operations

variable {env : StoreEnv} {clock : Clock} {key : AuditKey} {s s' : Tables} {t : String}

/-- Revoking takes back an approval that stands, and does nothing otherwise. -/
theorem revokeUnconsumedApprovalInTx_spec {who : String} {b : Bool} (hs : s.Keyed)
    (h : revokeUnconsumedApprovalInTx clock key t who s = .ok (b, s')) :
    (b = false ∧ s' = s ∧ s.approvalOf t ≠ .granted) ∨
      (b = true ∧ s.approvalOf t = .granted ∧ ∀ st, s.statusOf t = some st →
        Touched s s' t ⟨st, .absent⟩ [.approvalRevoked]) := by
  unfold revokeUnconsumedApprovalInTx at h
  simp only at h
  split_ifs at h with hcount
  · obtain ⟨a, ha, hua⟩ := Table.lookup_of_count_pos hs.approvals
      (fun a ha => (unconsumedOf_eq_true.mp ha).1) hcount
    have hgranted := approvalOf_eq_granted.mpr ⟨a, ha, (unconsumedOf_eq_true.mp hua).2⟩
    split at h
    · cases h
    · obtain ⟨rfl, rfl⟩ := Prod.mk.inj (Except.ok.inj h)
      exact .inr ⟨rfl, hgranted, fun st hst =>
        (deleteApproval_touched hs hst hgranted).appendEvent clock key .approvalRevoked _ _⟩
  · obtain ⟨rfl, rfl⟩ := Prod.mk.inj (Except.ok.inj h)
    have hrows := Table.deleteWhere_of_count_zero (Nat.eq_zero_of_not_pos hcount)
    refine .inl ⟨rfl, congrArg (fun rows => { s with approvals := rows }) hrows, fun hg => ?_⟩
    obtain ⟨a, ha, hnone⟩ := approvalOf_eq_granted.mp hg
    refine hcount (List.countP_pos_iff.mpr ⟨a, Table.mem_of_lookup ha, ?_⟩)
    exact unconsumedOf_eq_true.mpr ⟨Table.key_of_lookup ha, hnone⟩

/-- A claim spends a standing approval of a queued transaction, or does nothing. -/
theorem claimApprovedForExecution_spec {digest : String} {executor : CallerPrincipal} {b : Bool}
    (hs : s.Keyed) (h : claimApprovedForExecution env clock t digest executor s = .ok (b, s')) :
    (b = false ∧ s' = s) ∨
      (b = true ∧ s.statusOf t = some .queued ∧ s.approvalOf t = .granted ∧
        Touched s s' t ⟨.running, .consumed⟩ [.approvalConsumed, .statusRunning]) := by
  obtain ⟨key, -, h⟩ := exists_of_bind_eq_ok h
  simp only at h
  split_ifs at h with hcount
  · obtain ⟨rfl, rfl⟩ := Prod.mk.inj (Except.ok.inj h)
    obtain ⟨⟨r, hr, hpr⟩, hmoved⟩ := setStatusWhere_spec hs
      (fun r hr => by simp only [Bool.and_eq_true, beq_iff_eq] at hr; exact hr.1.1.1) hcount
    simp only [Bool.and_eq_true, beq_iff_eq, List.any_eq_true, Option.isNone_iff_eq_none] at hpr
    obtain ⟨⟨⟨-, hqueued⟩, -⟩, a, hamem, ⟨hat, -⟩, hanone⟩ := hpr
    have hgranted : s.approvalOf t = .granted :=
      approvalOf_eq_granted.mpr ⟨a, Table.lookup_of_mem hs.approvals hamem hat, hanone⟩
    refine .inr ⟨rfl, by rw [statusOf, hr, Option.map_some, hqueued], hgranted, ?_⟩
    have hconsumed := consumeApproval_touched hmoved.keyed hmoved.status
      (hmoved.approval.trans hgranted) clock.datetime
    exact ((hmoved.trans hconsumed).appendEvent clock key .approvalConsumed digest _).appendEvent
      clock key .statusRunning "" .legacyV1
  · obtain ⟨rfl, rfl⟩ := Prod.mk.inj (Except.ok.inj h)
    exact .inl ⟨rfl, setStatusWhere_of_zero hcount⟩

/-- Approving grants an approval to a queued transaction that has none, or does nothing. -/
theorem approveTransaction_spec {approver : CallerPrincipal} {receipt : Option String}
    (hs : s.Keyed) (h : approveTransaction env clock t approver s = .ok (receipt, s')) :
    (receipt = none ∧ s' = s) ∨
      (receipt.isSome ∧ s.statusOf t = some .queued ∧ s.approvalOf t = .absent ∧
        Touched s s' t ⟨.queued, .granted⟩ [.approvalGranted]) := by
  obtain ⟨key, -, h⟩ := exists_of_bind_eq_ok h
  split at h
  · obtain ⟨rfl, rfl⟩ := Prod.mk.inj (Except.ok.inj h)
    exact .inl ⟨rfl, rfl⟩
  simp only at h
  split at h
  · cases h
  split at h
  · cases h
  rw [Table.filter_of_pinned hs.transactions
    (fun r hr => by simp only [Bool.and_eq_true, beq_iff_eq] at hr; exact hr.1.1.1)] at h
  -- the query answers the row of `t` or nothing
  cases hrow : s.findTransaction t with
  | none =>
    rw [show Table.lookup (fun r : TransactionRow => r.transactionId) t s.transactions = none
      from hrow] at h
    obtain ⟨rfl, rfl⟩ := Prod.mk.inj (Except.ok.inj h)
    simp
  | some r =>
    rw [show Table.lookup (fun r : TransactionRow => r.transactionId) t s.transactions = some r
      from hrow, Option.filter_some] at h
    split at h
    · rename_i hr
      obtain ⟨rfl, rfl⟩ := Prod.mk.inj (Except.ok.inj h)
      simp only [Bool.and_eq_true, beq_iff_eq, Option.isNone_iff_eq_none] at hr
      obtain ⟨⟨⟨hid, hqueued⟩, -⟩, hnone⟩ := hr
      have hst : s.statusOf t = some .queued := by rw [statusOf, hrow, Option.map_some, hqueued]
      have habsent : s.approvalOf t = .absent := approvalOf_eq_absent.mpr hnone
      refine .inr ⟨rfl, hst, habsent, ?_⟩
      rw [Option.toList_some, List.map_singleton, hid]
      exact (insertApproval_touched hs hst habsent _).appendEvent clock key .approvalGranted _ _
    · obtain ⟨rfl, rfl⟩ := Prod.mk.inj (Except.ok.inj h)
      simp

/-- A status update moves the transaction along the table. -/
theorem updateStatus_spec {new : JobState} {u : Unit} (hs : s.Keyed)
    (h : updateStatus env clock t new s = .ok (u, s')) :
    ∃ st, s.statusOf t = some st ∧ st.allowedTransition new = true ∧
      Touched s s' t ⟨new, s.approvalOf t⟩ [.ofJobState new] := by
  unfold updateStatus at h
  split at h
  · cases h
  · rename_i row hrow
    simp only at h
    split_ifs at h with hallowed hcount
    obtain ⟨key, -, h⟩ := exists_of_bind_eq_ok h
    obtain ⟨-, rfl⟩ := Prod.mk.inj (Except.ok.inj h)
    refine ⟨row.status, by rw [statusOf, hrow, Option.map_some], by simpa using hallowed, ?_⟩
    obtain ⟨-, hmoved⟩ := setStatusWhere_spec hs
      (fun r hr => by simp only [Bool.and_eq_true, beq_iff_eq] at hr; exact hr.1)
      (Nat.pos_of_ne_zero hcount)
    exact hmoved.appendEvent clock key (.ofJobState new) "" .legacyV1

/-- A cancellation takes a queued transaction, with the approval it may have, to `Canceled`. -/
theorem cancelQueuedInTx_spec {who : String} {n : ℕ} (hs : s.Keyed)
    (h : cancelQueuedInTx clock key t who s = .ok (n, s')) :
    (n = 0 ∧ s' = s) ∨
      (0 < n ∧ s.statusOf t = some .queued ∧ ∃ a ks,
        LifePath ⟨.queued, s.approvalOf t⟩ ks ⟨.canceled, a⟩ ∧
          Touched s s' t ⟨.canceled, a⟩ ks) := by
  unfold cancelQueuedInTx at h
  simp only at h
  split_ifs at h with hcount
  · obtain ⟨⟨r, hr, hpr⟩, hmoved⟩ := setStatusWhere_spec hs
      (fun r hr => by simp only [Bool.and_eq_true, beq_iff_eq] at hr; exact hr.1) hcount
    simp only [Bool.and_eq_true, beq_iff_eq] at hpr
    obtain ⟨⟨b, s₂⟩, hrevoke, h⟩ := exists_of_bind_eq_ok h
    obtain ⟨rfl, rfl⟩ := Prod.mk.inj (Except.ok.inj h)
    refine .inr ⟨hcount, by rw [statusOf, hr, Option.map_some, hpr.2], ?_⟩
    have hmove (a : ApprovalState) : LifePath ⟨.queued, a⟩ [.statusCanceled] ⟨.canceled, a⟩ :=
      (LifeStep.move a (by rfl : JobState.allowedTransition .queued .canceled = true)).path
    rcases revokeUnconsumedApprovalInTx_spec hmoved.keyed hrevoke with
      ⟨-, rfl, -⟩ | ⟨-, hgranted, htouched⟩
    · exact ⟨_, _, hmove _, hmoved.appendEvent clock key .statusCanceled "" .legacyV1⟩
    · rw [hmoved.approval] at hgranted
      simp only at hgranted
      refine ⟨_, _, ?_, ((hmoved.trans (htouched _ hmoved.status)).appendEvent clock key
        .statusCanceled "" .legacyV1)⟩
      rw [hgranted]
      exact .step (.revoke .queued) (hmove .absent)
  · obtain ⟨rfl, rfl⟩ := Prod.mk.inj (Except.ok.inj h)
    exact .inl ⟨rfl, setStatusWhere_of_zero hcount⟩

/-- Recording adds one queued transaction. -/
theorem insertTransaction_spec {tx : NewTransaction} {rec_ : TransactionRecord} (hs : s.Keyed)
    (h : insertTransaction env clock key t tx s = .ok (rec_, s')) :
    s.statusOf t = none ∧ Touched s s' t ⟨.queued, s.approvalOf t⟩ [] := by
  unfold insertTransaction at h
  split_ifs at h with hfound
  obtain ⟨-, rfl⟩ := Prod.mk.inj (Except.ok.inj h)
  have hnone : s.findTransaction t = none := by simpa using hfound
  have hlookup (t' : String) : Table.lookup (fun r : TransactionRow => r.transactionId) t'
      (s.transactions ++ [newRow env clock key t tx s]) =
        (s.findTransaction t').or (if t = t' then some (newRow env clock key t tx s) else none) :=
    Table.lookup_concat t'
  refine ⟨by rw [statusOf, hnone, Option.map_none],
    ⟨Table.uniqueKey_concat hs.transactions hnone, hs.approvals⟩, ?_, rfl, by simp [historyOf],
    fun t' ht' => ⟨?_, rfl, rfl⟩⟩
  · simp only [statusOf, findTransaction]
    rw [hlookup t, hnone, if_pos rfl, Option.none_or]
    rfl
  · simp only [statusOf, findTransaction]
    rw [hlookup t', if_neg (Ne.symm ht'), Option.or_none]
    rfl

end Operations

/-! ### Every transaction lives -/

/-- The transaction is unknown and has left no trace, or it is where its history leads. -/
def LivesAt (s : Tables) (t : String) : Prop :=
  match s.statusOf t with
  | none => s.historyOf t = [] ∧ s.approvalOf t = .absent
  | some st => ∃ h : List AuditEventKind,
      s.historyOf t = h.map AuditEventKind.asStr ∧ LifeRun h ⟨st, s.approvalOf t⟩

/-- The invariant of the store. -/
structure Lives (s : Tables) : Prop where
  keyed : s.Keyed
  lives : ∀ t, LivesAt s t

theorem livesAt_of_status {s : Tables} {t : String} {st : JobState} (h : LivesAt s t)
    (hst : s.statusOf t = some st) : ∃ h : List AuditEventKind,
      s.historyOf t = h.map AuditEventKind.asStr ∧ LifeRun h ⟨st, s.approvalOf t⟩ := by
  rwa [LivesAt, hst] at h

theorem livesAt_of_same {s s' : Tables} {t : String} (h : LivesAt s t) (hsame : Same s s' t) :
    LivesAt s' t := by
  rwa [LivesAt, hsame.status, hsame.approval, hsame.history]

namespace Lives

variable {s s' : Tables} {t : String}

theorem empty : Lives Tables.empty :=
  ⟨⟨List.nodup_nil, List.nodup_nil⟩, fun _ => ⟨rfl, rfl⟩⟩

/-- A transaction that is not recorded has no standing approval. -/
theorem recorded_of_granted (h : Lives s) (hg : s.approvalOf t = .granted) :
    ∃ st, s.statusOf t = some st := by
  have hlives := h.lives t
  unfold LivesAt at hlives
  split at hlives
  · rw [hlives.2] at hg
    cases hg
  · exact ⟨_, ‹_›⟩

/-- Touching a recorded transaction along a path of its life keeps the invariant. -/
theorem touched {st : JobState} {l : Life} {ks : List AuditEventKind} (h : Lives s)
    (hst : s.statusOf t = some st) (hpath : LifePath ⟨st, s.approvalOf t⟩ ks l)
    (htouched : Touched s s' t l ks) : Lives s' := by
  refine ⟨htouched.keyed, fun t' => ?_⟩
  by_cases ht : t' = t
  · subst ht
    obtain ⟨h₀, hhist, hrun⟩ := livesAt_of_status (h.lives t') hst
    have hrun' := hrun.path hpath
    rw [LivesAt, htouched.status, htouched.history, htouched.approval, hhist]
    exact ⟨h₀ ++ ks, by rw [List.map_append], hrun'⟩
  · exact livesAt_of_same (h.lives t') (htouched.frame t' ht)

/-- Recording a transaction starts its life. -/
theorem recorded (h : Lives s) (hst : s.statusOf t = none)
    (htouched : Touched s s' t ⟨.queued, s.approvalOf t⟩ []) : Lives s' := by
  refine ⟨htouched.keyed, fun t' => ?_⟩
  by_cases ht : t' = t
  · subst ht
    have hlives := h.lives t'
    rw [LivesAt, hst] at hlives
    obtain ⟨hhist, habsent⟩ := hlives
    rw [LivesAt, htouched.status, htouched.history, htouched.approval, hhist, habsent]
    exact ⟨[], rfl, .start⟩
  · exact livesAt_of_same (h.lives t') (htouched.frame t' ht)

end Lives

/-! ### One operation -/

/-- From one store to the next, every recorded transaction keeps its status or moves once
along the table, into one of the `target` states. -/
def StatusStep (target : JobState → Prop) (s s' : Tables) : Prop :=
  ∀ t st, s.statusOf t = some st → ∃ st', s'.statusOf t = some st' ∧
    (st' = st ∨ (st.allowedTransition st' = true ∧ target st'))

namespace StatusStep

variable {target : JobState → Prop} {s s' s'' : Tables} {t : String}

theorem refl : StatusStep target s s := fun _ st hst => ⟨st, hst, .inl rfl⟩

theorem mono {target' : JobState → Prop} (h : StatusStep target s s')
    (hle : ∀ st, target st → target' st) : StatusStep target' s s' := by
  intro t st hst
  obtain ⟨st', hst', heq | ⟨hallowed, htarget⟩⟩ := h t st hst
  · exact ⟨st', hst', .inl heq⟩
  · exact ⟨st', hst', .inr ⟨hallowed, hle st' htarget⟩⟩

/-- Moves into terminal states compose: nothing moves twice. -/
theorem trans (hterm : ∀ st, target st → st.isTerminal = true) (h : StatusStep target s s')
    (h' : StatusStep target s' s'') : StatusStep target s s'' := by
  intro t st hst
  obtain ⟨st', hst', heq | ⟨hallowed, htarget⟩⟩ := h t st hst
  · subst heq
    exact h' t st' hst'
  · obtain ⟨st'', hst'', heq' | ⟨hallowed', -⟩⟩ := h' t st' hst'
    · subst heq'
      exact ⟨st'', hst'', .inr ⟨hallowed, htarget⟩⟩
    · rw [(JobState.isTerminal_iff_no_transition st').mp (hterm st' htarget) st''] at hallowed'
      cases hallowed'

theorem of_touched {l : Life} {ks : List AuditEventKind} (htouched : Touched s s' t l ks)
    (hmove : ∀ st, s.statusOf t = some st →
      l.status = st ∨ (st.allowedTransition l.status = true ∧ target l.status)) :
    StatusStep target s s' := by
  intro t' st hst
  by_cases ht : t' = t
  · subst ht
    exact ⟨l.status, htouched.status, hmove st hst⟩
  · exact ⟨st, (htouched.frame t' ht).status.trans hst, .inl rfl⟩

end StatusStep

/-- One store follows another along the lives of the transactions recorded in it, none of them
new. -/
structure Advances (target : JobState → Prop) (s s' : Tables) : Prop where
  lives : Lives s'
  moves : StatusStep target s s'
  unknown : ∀ t, s.statusOf t = none → s'.statusOf t = none

namespace Advances

variable {target : JobState → Prop} {s s' s'' : Tables} {t : String}

theorem refl (h : Lives s) : Advances target s s := ⟨h, .refl, fun _ ht => ht⟩

theorem trans (hterm : ∀ st, target st → st.isTerminal = true) (h : Advances target s s')
    (h' : Advances target s' s'') : Advances target s s'' :=
  ⟨h'.lives, h.moves.trans hterm h'.moves, fun t ht => h'.unknown t (h.unknown t ht)⟩

/-- Touching one recorded transaction along its life. -/
theorem of_touched {st : JobState} {l : Life} {ks : List AuditEventKind} (h : Lives s)
    (hst : s.statusOf t = some st) (hpath : LifePath ⟨st, s.approvalOf t⟩ ks l)
    (htouched : Touched s s' t l ks)
    (hmove : l.status = st ∨ (st.allowedTransition l.status = true ∧ target l.status)) :
    Advances target s s' := by
  refine ⟨h.touched hst hpath htouched, .of_touched htouched fun st' hst' => ?_, fun t' ht' => ?_⟩
  · obtain rfl := Option.some.inj (hst.symm.trans hst')
    exact hmove
  · have hne : t' ≠ t := by
      rintro rfl
      rw [hst] at ht'
      cases ht'
    exact (htouched.frame t' hne).status.trans ht'

end Advances

/-- One store follows another: recorded transactions go on living, and new ones start queued. -/
structure Follows (s s' : Tables) : Prop where
  lives : Lives s'
  moves : StatusStep (fun _ => True) s s'
  starts : ∀ t, s.statusOf t = none → s'.statusOf t = none ∨ s'.statusOf t = some .queued

theorem Advances.follows {target : JobState → Prop} {s s' : Tables} (h : Advances target s s') :
    Follows s s' :=
  ⟨h.lives, h.moves.mono fun _ _ => trivial, fun t ht => .inl (h.unknown t ht)⟩

/-! ### The touches of an operation -/

/-- The primary keys hold, and a standing approval belongs to a recorded transaction. -/
structure Grounded (s : Tables) : Prop where
  keyed : s.Keyed
  recorded : ∀ t, s.approvalOf t = .granted → ∃ st, s.statusOf t = some st

theorem Lives.grounded {s : Tables} (h : Lives s) : Grounded s :=
  ⟨h.keyed, fun _ => h.recorded_of_granted⟩

/-- One recorded transaction is taken along its life, into one of the `target` states if its
status changes. -/
inductive Touch (target : JobState → Prop) (s s' : Tables) : Prop
  | intro {t : String} {st : JobState} {l : Life} {ks : List AuditEventKind}
      (hst : s.statusOf t = some st) (hpath : LifePath ⟨st, s.approvalOf t⟩ ks l)
      (htouched : Touched s s' t l ks)
      (hmove : l.status = st ∨ (st.allowedTransition l.status = true ∧ target l.status))

namespace Touch

open Relation

variable {target : JobState → Prop} {s s' : Tables}

theorem advances (h : Touch target s s') (hs : Lives s) : Advances target s s' := by
  obtain ⟨hst, hpath, htouched, hmove⟩ := h
  exact .of_touched hs hst hpath htouched hmove

theorem grounded (h : Touch target s s') (hs : Grounded s) : Grounded s' := by
  obtain ⟨hst, hpath, htouched, hmove⟩ := h
  rename_i t st l ks
  refine ⟨htouched.keyed, fun t' hgranted => ?_⟩
  by_cases ht : t' = t
  · exact ⟨l.status, ht ▸ htouched.status⟩
  · rw [(htouched.frame t' ht).approval] at hgranted
    rw [(htouched.frame t' ht).status]
    exact hs.recorded t' hgranted

theorem advances_of_reflGen (h : ReflGen (Touch target) s s') (hs : Lives s) :
    Advances target s s' := by
  cases h with
  | refl => exact .refl hs
  | single h => exact h.advances hs

/-- Touches into terminal states compose. -/
theorem advances_of_reflTransGen (hterm : ∀ st, target st → st.isTerminal = true)
    (h : ReflTransGen (Touch target) s s') (hs : Lives s) : Advances target s s' := by
  induction h with
  | refl => exact .refl hs
  | tail _ hstep ih => exact ih.trans hterm (hstep.advances ih.lives)

theorem grounded_of_reflTransGen (h : ReflTransGen (Touch target) s s') (hs : Grounded s) :
    Grounded s' := by
  induction h with
  | refl => exact hs
  | tail _ hstep ih => exact hstep.grounded ih

end Touch

section Operations

open Relation

variable {env : StoreEnv} {clock : Clock} {key : AuditKey} {s s' : Tables} {t : String}

theorem touch_approve {approver : CallerPrincipal} {receipt : Option String}
    (hs : Grounded s) (h : approveTransaction env clock t approver s = .ok (receipt, s')) :
    ReflGen (Touch fun _ => True) s s' := by
  rcases approveTransaction_spec hs.keyed h with ⟨-, rfl⟩ | ⟨-, hst, habsent, htouched⟩
  · exact .refl
  · exact .single (.intro hst (habsent ▸ LifeStep.grant.path) htouched (.inl rfl))

theorem touch_revoke {revoker : CallerPrincipal} {b : Bool} (hs : Grounded s)
    (h : revokeUnconsumedApproval env clock t revoker s = .ok (b, s')) :
    ReflGen (Touch fun _ => True) s s' := by
  obtain ⟨key, -, h⟩ := exists_of_bind_eq_ok h
  rcases revokeUnconsumedApprovalInTx_spec hs.keyed h with ⟨-, rfl, -⟩ | ⟨-, hgranted, htouched⟩
  · exact .refl
  · obtain ⟨st, hst⟩ := hs.recorded t hgranted
    exact .single (.intro hst (hgranted ▸ (LifeStep.revoke st).path) (htouched st hst) (.inl rfl))

theorem touch_claim {digest : String} {executor : CallerPrincipal} {b : Bool}
    (hs : Grounded s) (h : claimApprovedForExecution env clock t digest executor s = .ok (b, s')) :
    ReflGen (Touch fun _ => True) s s' := by
  rcases claimApprovedForExecution_spec hs.keyed h with ⟨-, rfl⟩ | ⟨-, hst, hgranted, htouched⟩
  · exact .refl
  · exact .single (.intro hst (hgranted ▸ LifeStep.claim.path) htouched (.inr ⟨rfl, trivial⟩))

theorem touch_updateStatus {new : JobState} {u : Unit} (hs : Grounded s)
    (h : updateStatus env clock t new s = .ok (u, s')) : Touch (· = new) s s' := by
  obtain ⟨st, hst, hallowed, htouched⟩ := updateStatus_spec hs.keyed h
  exact .intro hst (LifeStep.move _ hallowed).path htouched (.inr ⟨hallowed, rfl⟩)

theorem touch_cancelInTx {who : String} {n : ℕ} (hs : Grounded s)
    (h : cancelQueuedInTx clock key t who s = .ok (n, s')) :
    ReflGen (Touch (· = .canceled)) s s' := by
  rcases cancelQueuedInTx_spec hs.keyed h with ⟨-, rfl⟩ | ⟨-, hst, a, ks, hpath, htouched⟩
  · exact .refl
  · exact .single (.intro hst hpath htouched (.inr ⟨rfl, rfl⟩))

theorem lives_cancelInTx {who : String} {n : ℕ} (hs : Lives s)
    (h : cancelQueuedInTx clock key t who s = .ok (n, s')) : Lives s' :=
  (Touch.advances_of_reflGen (touch_cancelInTx hs.grounded h) hs).lives

theorem touches_cancelEach {ids : List String} {k n : ℕ} (hs : Grounded s)
    (h : cancelEach clock key ids k s = .ok (n, s')) :
    ReflTransGen (Touch (· = .canceled)) s s' := by
  induction ids generalizing k s with
  | nil =>
    obtain ⟨-, rfl⟩ := Prod.mk.inj (Except.ok.inj h)
    exact .refl
  | cons id ids ih =>
    obtain ⟨⟨m, s₁⟩, hcancel, hrest⟩ := exists_of_bind_eq_ok h
    have hstep := (touch_cancelInTx hs hcancel).to_reflTransGen
    exact hstep.trans (ih (Touch.grounded_of_reflTransGen hstep hs) hrest)

theorem touches_failEach {ids : List String} (hs : Grounded s) :
    ReflTransGen (Touch (· = .failed)) s (failEach env clock ids s).2 := by
  induction ids generalizing s with
  | nil => exact .refl
  | cons id ids ih =>
    unfold failEach
    split
    · exact .refl
    · rename_i s₁ hupdate
      have hstep := touch_updateStatus hs hupdate
      exact .head hstep (ih (hstep.grounded hs))

theorem touches_reconcilePages {rounds total : ℕ} (hs : Grounded s) :
    ReflTransGen (Touch (· = .failed)) s (reconcilePages env clock rounds total s).2 := by
  induction rounds generalizing total s with
  | zero => exact .refl
  | succ rounds ih =>
    unfold reconcilePages
    have hpage : ReflTransGen (Touch (· = .failed)) s (failEach env clock s.runningPage s).2 :=
      touches_failEach hs
    simp only
    split
    · exact .refl
    · split
      · rename_i hfail
        rw [hfail] at hpage
        exact hpage
      · rename_i hfail
        rw [hfail] at hpage
        split
        · exact hpage
        · exact hpage.trans (ih (Touch.grounded_of_reflTransGen hpage hs))

/-- What an operation amounts to: touching recorded transactions, more than one only when it
ends them, or recording a new one. -/
inductive Effect (s s' : Tables) : Prop
  | one (h : ReflGen (Touch fun _ => True) s s')
  | many {target : JobState → Prop} (hterm : ∀ st, target st → st.isTerminal = true)
      (h : ReflTransGen (Touch target) s s')
  | records {t : String} (hst : s.statusOf t = none)
      (htouched : Touched s s' t ⟨.queued, s.approvalOf t⟩ [])

/-- An error leaves the store as it was. -/
theorem effect_committed {α : Type} {r : Except StoreError (α × Tables)}
    (h : ∀ a s', r = .ok (a, s') → Effect s s') : Effect s (committed s r) := by
  cases r with
  | error e => exact .one .refl
  | ok r => exact h r.1 r.2 rfl

private theorem isTerminal_of_eq {st st' : JobState} (h : st'.isTerminal = true) (heq : st = st') :
    st.isTerminal = true := heq ▸ h

theorem effect_apply (hs : Grounded s) (op : StoreOp) : Effect s (op.apply env clock s) := by
  cases op with
  | record id tx =>
    refine effect_committed fun _ _ h => ?_
    obtain ⟨key, -, h⟩ := exists_of_bind_eq_ok h
    obtain ⟨hst, htouched⟩ := insertTransaction_spec hs.keyed h
    exact .records hst htouched
  | recordPreviewed id tx preview =>
    refine effect_committed fun _ _ h => ?_
    obtain ⟨key, -, h⟩ := exists_of_bind_eq_ok h
    obtain ⟨⟨rec_, s₁⟩, hinsert, h⟩ := exists_of_bind_eq_ok h
    obtain ⟨-, rfl⟩ := Prod.mk.inj (Except.ok.inj h)
    obtain ⟨hst, htouched⟩ := insertTransaction_spec hs.keyed hinsert
    -- the preview table is not observed
    exact .records hst ⟨⟨htouched.keyed.transactions, htouched.keyed.approvals⟩, htouched.status,
      htouched.approval, htouched.history, fun t' ht' =>
        ⟨(htouched.frame t' ht').status, (htouched.frame t' ht').approval,
          (htouched.frame t' ht').history⟩⟩
  | approve id approver => exact effect_committed fun _ _ h => .one (touch_approve hs h)
  | revoke id revoker => exact effect_committed fun _ _ h => .one (touch_revoke hs h)
  | claim id digest executor => exact effect_committed fun _ _ h => .one (touch_claim hs h)
  | updateStatus t status =>
    refine effect_committed fun _ _ h => .one (.single ?_)
    obtain ⟨hst, hpath, htouched, hmove⟩ := touch_updateStatus hs h
    exact .intro hst hpath htouched (hmove.imp id fun h => ⟨h.1, trivial⟩)
  | cancelQueued id canceller =>
    refine effect_committed fun _ _ h => ?_
    obtain ⟨key, -, h⟩ := exists_of_bind_eq_ok h
    obtain ⟨⟨n, s₁⟩, hcancel, h⟩ := exists_of_bind_eq_ok h
    obtain ⟨-, rfl⟩ := Prod.mk.inj (Except.ok.inj h)
    exact .many (fun st => isTerminal_of_eq rfl) (touch_cancelInTx hs hcancel).to_reflTransGen
  | cleanup =>
    refine effect_committed fun _ _ h => ?_
    obtain ⟨key, -, h⟩ := exists_of_bind_eq_ok h
    exact .many (fun st => isTerminal_of_eq rfl) (touches_cancelEach hs h)
  | reconcile => exact .many (fun st => isTerminal_of_eq rfl) (touches_reconcilePages hs)

/-- What one operation does to every transaction. -/
theorem follows_apply (hs : Lives s) (op : StoreOp) : Follows s (op.apply env clock s) := by
  have heffect : Effect s (op.apply env clock s) := effect_apply hs.grounded op
  cases heffect with
  | one h => exact (Touch.advances_of_reflGen h hs).follows
  | many hterm h => exact (Touch.advances_of_reflTransGen hterm h hs).follows
  | @records t hst htouched =>
    refine ⟨hs.recorded hst htouched, .of_touched htouched fun st hst' => ?_, fun t' ht' => ?_⟩
    · rw [hst] at hst'
      cases hst'
    · by_cases ht : t' = t
      · subst ht
        exact .inr htouched.status
      · exact .inl ((htouched.frame t' ht).status.trans ht')

end Operations

/-! ### Every sequence of operations -/

section Runs

variable (env : StoreEnv) (t : String)

/-- Every store reached from a new one satisfies the invariant. -/
theorem lives_run (ops : List (Clock × StoreOp)) : Lives (run env ops) := by
  induction ops using List.reverseRecOn with
  | nil => exact Lives.empty
  | append_singleton ops op ih =>
    rw [run_concat]
    exact (follows_apply ih op.2).lives

/-- The operation takes the transaction into `Running`. -/
def EntersRunning (ops : List (Clock × StoreOp)) (op : Clock × StoreOp) : Prop :=
  (run env ops).statusOf t ≠ some .running ∧ (run env (ops ++ [op])).statusOf t = some .running

private theorem status_step (ops : List (Clock × StoreOp)) (op : Clock × StoreOp) {st : JobState}
    (hst : (run env ops).statusOf t = some st) :
    ∃ st', (run env (ops ++ [op])).statusOf t = some st' ∧
      (st' = st ∨ st.allowedTransition st' = true) := by
  rw [run_concat]
  obtain ⟨st', hst', hmove⟩ := (follows_apply (lives_run env ops) op.2).moves t st hst
  exact ⟨st', hst', hmove.imp id And.left⟩

/-- A property of statuses that no transition leaves is never lost. -/
private theorem status_stable {P : JobState → Prop}
    (hP : ∀ st st', P st → st.allowedTransition st' = true → P st')
    (ops ops' : List (Clock × StoreOp)) {st : JobState}
    (hst : (run env ops).statusOf t = some st) (h : P st) :
    ∃ st', (run env (ops ++ ops')).statusOf t = some st' ∧ P st' := by
  induction ops' using List.reverseRecOn with
  | nil => exact ⟨st, by simpa using hst, h⟩
  | append_singleton ops' op ih =>
    obtain ⟨st₁, hst₁, h₁⟩ := ih
    rw [← List.append_assoc]
    obtain ⟨st₂, hst₂, rfl | hallowed⟩ := status_step env t (ops ++ ops') op hst₁
    · exact ⟨st₂, hst₂, h₁⟩
    · exact ⟨st₂, hst₂, hP st₁ st₂ h₁ hallowed⟩

private theorem terminal_stable (ops ops' : List (Clock × StoreOp)) {st : JobState}
    (hst : (run env ops).statusOf t = some st) (hterm : st.isTerminal = true) :
    (run env (ops ++ ops')).statusOf t = some st := by
  obtain ⟨st', hst', rfl⟩ := status_stable env t (P := (· = st)) (fun st₁ st₂ h hallowed => by
    subst h
    rw [(JobState.isTerminal_iff_no_transition st₁).mp hterm st₂] at hallowed
    cases hallowed) ops ops' hst rfl
  exact hst'

private theorem not_entersRunning_again {ops ops' : List (Clock × StoreOp)}
    {op op' : Clock × StoreOp} (h : EntersRunning env t ops op) :
    ¬ EntersRunning env t (ops ++ op :: ops') op' := by
  rintro ⟨hne, hrunning⟩
  -- nothing returns to `Queued`, and `Running` is entered from there alone
  obtain ⟨st, hst, hnotqueued⟩ := status_stable env t (P := (· ≠ .queued))
    (fun st st' _ hallowed heq => by
      rw [heq, JobState.not_allowedTransition_queued] at hallowed
      cases hallowed) (ops ++ [op]) ops' h.2 (by decide)
  rw [List.append_assoc, List.singleton_append] at hst
  obtain ⟨st', hst', rfl | hallowed⟩ := status_step env t (ops ++ op :: ops') op' hst
  · exact hne (hst.trans (hst'.symm.trans hrunning))
  · obtain rfl := Option.some.inj (hst'.symm.trans hrunning)
    exact hnotqueued (JobState.eq_queued_of_allowedTransition_running hallowed)

private theorem history_spec (ops : List (Clock × StoreOp)) :
    ∃ (h : List AuditEventKind) (l : Life),
      (run env ops).historyOf t = h.map AuditEventKind.asStr ∧ LifeRun h l := by
  have hlives := (lives_run env ops).lives t
  unfold LivesAt at hlives
  split at hlives
  · exact ⟨[], .queued, hlives.1, .start⟩
  · obtain ⟨h, hhist, hrun⟩ := hlives
    exact ⟨h, _, hhist, hrun⟩

private theorem count_map_asStr (h : List AuditEventKind) (k : AuditEventKind) :
    (h.map AuditEventKind.asStr).count k.asStr = h.count k :=
  List.count_map_of_injective h _ (fun _ _ => AuditEventKind.asStr_injective) k

/-- **The life cycle of a transaction.** In every sequence of operations on a new store, the
status of each transaction starts at `Queued` and moves along the transition table, a terminal
status is kept forever, `Running` is entered at most once, and at most one approval is spent,
after a grant with no revocation in between. -/
theorem lifecycle :
    (∀ ops op st, (run env ops).statusOf t = some st →
      ∃ st', (run env (ops ++ [op])).statusOf t = some st' ∧
        (st' = st ∨ st.allowedTransition st' = true)) ∧
    (∀ ops op, (run env ops).statusOf t = none →
      (run env (ops ++ [op])).statusOf t = none ∨
        (run env (ops ++ [op])).statusOf t = some .queued) ∧
    (∀ ops ops' st, (run env ops).statusOf t = some st → st.isTerminal = true →
      (run env (ops ++ ops')).statusOf t = some st) ∧
    (∀ ops op ops' op', EntersRunning env t ops op →
      ¬ EntersRunning env t (ops ++ op :: ops') op') ∧
    (∀ ops, ((run env ops).historyOf t).count AuditEventKind.approvalConsumed.asStr ≤ 1) ∧
    (∀ ops pre post,
      (run env ops).historyOf t = pre ++ AuditEventKind.approvalConsumed.asStr :: post →
        ∃ a b, pre = a ++ AuditEventKind.approvalGranted.asStr :: b ∧
          AuditEventKind.approvalRevoked.asStr ∉ b) := by
  refine ⟨fun ops op _ hst => status_step env t ops op hst, fun ops op hst => ?_,
    fun ops ops' _ => terminal_stable env t ops ops', fun _ _ _ _ => not_entersRunning_again env t,
    fun ops => ?_, fun ops pre post hsplit => ?_⟩
  · rw [run_concat]
    exact (follows_apply (lives_run env ops) op.2).starts t hst
  · obtain ⟨h, l, hhist, hrun⟩ := history_spec env t ops
    rw [hhist, count_map_asStr]
    exact hrun.spends_once
  · obtain ⟨h, l, hhist, hrun⟩ := history_spec env t ops
    rw [hhist] at hsplit
    obtain ⟨pre', rest, rfl, rfl, hrest⟩ := List.map_eq_append_iff.mp hsplit
    obtain ⟨k, post', rfl, hk, rfl⟩ := List.map_eq_cons_iff.mp hrest
    obtain rfl := AuditEventKind.asStr_injective hk
    obtain ⟨a, b, rfl, hb⟩ := hrun.grant_before_spend rfl
    refine ⟨a.map AuditEventKind.asStr, b.map AuditEventKind.asStr, by simp, fun hmem => hb ?_⟩
    obtain ⟨k, hkb, hk⟩ := List.mem_map.mp hmem
    exact AuditEventKind.asStr_injective hk ▸ hkb

end Runs

/-! ### A sample run -/

/-- A store whose clock stands still. -/
def sampleEnv : StoreEnv := ⟨some sampleKey, fun bytes => bytes.take 32, fun _ => some 0⟩

/-- The moment of every sample operation. -/
def sampleClock : Clock := ⟨"2026-01-01T00:00:00.000Z", "2026-01-01 00:00:00", 0⟩

/-- Record, approve and claim one transaction. -/
def sampleOps : List (Clock × StoreOp) :=
  [(sampleClock, .record "tx-1"
      ⟨"req-1", "h1", "UpdateSystem", .high, "Update", [], .admin, .uid 1000⟩),
    (sampleClock, .approve "tx-1" (.uid 1000)),
    (sampleClock, .claim "tx-1" (approvalCommitment sampleEnv sampleKey "tx-1" "h1") (.uid 1000))]

/-- The sample run spends its approval once, after granting it. -/
theorem sampleOps_lifecycle :
    (run sampleEnv sampleOps).historyOf "tx-1" =
        ["approval_granted", "approval_consumed", "status_running"] ∧
      ∃ a b, ["approval_granted"] = a ++ AuditEventKind.approvalGranted.asStr :: b ∧
        AuditEventKind.approvalRevoked.asStr ∉ b := by
  have hhistory : (run sampleEnv sampleOps).historyOf "tx-1" =
      ["approval_granted", "approval_consumed", "status_running"] := by
    decide +kernel
  obtain ⟨-, -, -, -, -, hgranted⟩ := lifecycle sampleEnv "tx-1"
  exact ⟨hhistory, hgranted sampleOps ["approval_granted"] ["status_running"] hhistory⟩

end Sysknife.Store
