import Sysknife.Postgres.Alone

/-!
# The two backends are one store

Every operation of the PostgreSQL store, run alone, comes to what the operation of the SQLite store
comes to on tables that mirror its own: first the statements with the searches before them, then
the pieces the operations share, then the operations.

* `backends_agree`: **operations served one after the other answer the same on both backends, and
  leave tables that mirror each other.**
-/

namespace Sysknife.Postgres

open Audit Store

/-! ### Pieces of the operations -/

section Pieces

variable {env : StoreEnv} {clock : Clock} {key : AuditKey} {base : Db} {tx : TxId} {s : Tables}
  {t : String}

/-- An `UPDATE` that names a transaction changes its row if the row meets the condition. -/
theorem setStatusWhere_pinned (h : Ready env key s) (p : TransactionRow → Bool)
    (status : JobState) :
    s.setStatusWhere (fun r => r.transactionId == t && p r) status =
      if (s.findTransaction t).any p then
        (1, (s.setStatusWhere (fun r => r.transactionId == t) status).2)
      else (0, s) := by
  have hcount : s.transactions.countP (fun r => r.transactionId == t && p r) =
      ((s.findTransaction t).filter fun r => r.transactionId == t && p r).toList.length := by
    have hpinned : ∀ r : TransactionRow, (r.transactionId == t && p r) = true →
        r.transactionId = t := fun r hr => eq_of_beq (Bool.and_eq_true _ _ |>.mp hr).1
    rw [List.countP_eq_length_filter, Table.filter_of_pinned h.keyed.transactions hpinned]
    rfl
  rw [Tables.setStatusWhere]
  cases hfind : s.findTransaction t with
  | none =>
    rw [hfind] at hcount
    rw [Table.updateWhere_of_count_zero hcount]
    exact Prod.ext hcount rfl
  | some r =>
    have hid : r.transactionId = t :=
      @Table.key_of_lookup _ _ _ (fun r : TransactionRow => r.transactionId) _ _ _ hfind
    rw [hfind, Option.filter_some, hid, beq_self_eq_true, Bool.true_and] at hcount
    rw [Option.any_some]
    by_cases hp : p r = true
    · rw [if_pos hp] at hcount ⊢
      refine Prod.ext hcount ?_
      -- the only row under the identifier meets the condition
      have hrows : ∀ r' ∈ s.transactions, (r'.transactionId == t && p r') =
          (r'.transactionId == t) := by
        intro r' hr'
        by_cases hid' : r'.transactionId = t
        · have hsame := Table.lookup_of_mem h.keyed.transactions hr' hid'
          rw [Option.some.inj (hsame.symm.trans hfind), hp, Bool.and_true]
        · simp [hid']
      simp only [Tables.setStatusWhere, Table.updateWhere]
      congr 1
      exact List.map_congr_left fun r' hr' => by rw [hrows r' hr']
    · rw [if_neg hp] at hcount ⊢
      rw [Table.updateWhere_of_count_zero hcount]
      exact Prod.ext hcount rfl

/-- The approvals of a transaction that are not consumed: at most one. -/
theorem filter_unconsumedOf (h : Ready env key s) :
    s.approvals.filter (ApprovalRow.unconsumedOf t) = (liveApproval s t).toList := by
  have hpinned : ∀ a, ApprovalRow.unconsumedOf t a = true → a.transactionId = t :=
    fun a ha => eq_of_beq (Bool.and_eq_true _ _ |>.mp ha).1
  rw [Table.filter_of_pinned h.keyed.approvals hpinned, liveApproval, Tables.findApproval]
  cases hfind : Table.lookup ApprovalRow.transactionId t s.approvals with
  | none => rfl
  | some a =>
    have hid : a.transactionId = t := Table.key_of_lookup hfind
    simp [Option.filter_some, ApprovalRow.unconsumedOf, hid]

theorem countP_unconsumedOf (h : Ready env key s) :
    s.approvals.countP (ApprovalRow.unconsumedOf t) =
      if (liveApproval s t).isSome then 1 else 0 := by
  rw [List.countP_eq_length_filter, filter_unconsumedOf h]
  cases liveApproval s t <;> rfl

theorem countP_eq_zero_of_not_live (h : Ready env key s)
    (hlive : (liveApproval s t).isSome = false) :
    s.approvals.countP (ApprovalRow.unconsumedOf t) = 0 := by
  rw [countP_unconsumedOf h, hlive]
  rfl

theorem Does.selectEventTip (h : Ready env key s) :
    Does env clock key base tx (InTx env key base tx) s (Postgres.exec tx .selectEventTip)
      (.ok (s.events.getLast?, s)) := by
  refine Does.read h rfl fun p hp => ?_
  rw [Statement.run, hp.events, newest_eq_getLast? h.events]

theorem Does.selectEventTipForUpdate (h : Ready env key s) :
    Does env clock key base tx (InTx env key base tx) s (Postgres.selectEventTipForUpdate tx)
      (.ok (s.events.getLast?, s)) := by
  refine Does.step (Does.selectEventTip h) ?_
  cases s.events.getLast? with
  | none => exact Does.pure none
  | some row => exact Does.step (Does.read h rfl fun p hp => rfl) (Does.pure (some row))

theorem Does.appendEvent (h : Ready env key s) (kind : AuditEventKind) (digest : String)
    (identity : EventIdentity) : Does env clock key base tx (InTx env key base tx) s
      (Postgres.appendEvent key tx kind t digest identity)
      (.ok ((), Store.appendEvent clock key kind t digest identity s)) := by
  refine Does.step (Does.selectEventTipForUpdate h) (Does.step Does.nowIso ?_)
  refine Does.exec (h.appendEvent kind digest identity) fun p hp => ⟨?_, ?_⟩
  · rw [Statement.run, hp.events, if_neg]
    simp only [List.any_eq_true, beq_iff_eq, not_exists, not_and]
    exact fun e he => (lt_next h.events he).ne
  · rw [appendEvent_eq]
    exact ⟨hp.transactions, by rw [← hp.events]; rfl, hp.previews, hp.approvals⟩

theorem exists_of_any {α : Type} {o : Option α} {p : α → Bool} (h : o.any p = true) :
    ∃ a, o = some a ∧ p a = true := by
  cases o with
  | none => cases h
  | some a => exact ⟨a, rfl, h⟩

/-- An `UPDATE` after a search that found the row. -/
theorem Does.updateQueued (h : Ready env key s) (status : JobState)
    (hqueued : (s.findTransaction t).any (fun r => r.status == .queued) = true) :
    Does env clock key base tx (InTx env key base tx) s
      (Postgres.exec tx (.updateQueued t status))
      (.ok (1, (s.setStatusWhere (fun r => r.transactionId == t) status).2)) := by
  refine Does.exec (h.setStatusWhere _ status) fun p hp => ⟨?_, ?_⟩
  · have hstatus : p.statusOf t = some .queued := by
      rw [hp.statusOf, Tables.statusOf]
      obtain ⟨r, hr, hst⟩ := exists_of_any hqueued
      rw [hr, Option.map_some, eq_of_beq hst]
    rw [Statement.run, if_pos hstatus]
  · refine ⟨?_, hp.events, hp.previews, hp.approvals⟩
    show (Table.updateWhere _ _ p.transactions).2 = _
    rw [hp.transactions]
    rfl

/-- A search for a row, and an `UPDATE` of what it found. -/
theorem Does.updateFound (h : Ready env key s) {status : JobState}
    {p : TransactionRow → Bool} (hp : ∀ r, p r = true → r.status = .queued) {search : Query Bool}
    (hsearch : Does env clock key base tx (InTx env key base tx) s search
      (.ok ((s.findTransaction t).any p, s))) :
    Does env clock key base tx (InTx env key base tx) s
      (do if ← search then Postgres.exec tx (.updateQueued t status) else return (0 : ℕ))
      (.ok (s.setStatusWhere (fun r => r.transactionId == t && p r) status)) := by
  rw [setStatusWhere_pinned h]
  refine Does.step hsearch ?_
  split_ifs with hfound
  · refine Does.updateQueued h status ?_
    obtain ⟨r, hr, hpr⟩ := exists_of_any hfound
    rw [hr, Option.any_some, hp r hpr]
    rfl
  · exact Does.pure (0 : ℕ)

theorem Does.setStatusIfQueued (h : Ready env key s) (status : JobState) :
    Does env clock key base tx (InTx env key base tx) s
      (Postgres.setStatusIfQueued tx t status)
      (.ok (s.setStatusWhere (fun r => r.transactionId == t && r.status == .queued) status)) := by
  refine Does.updateFound h (fun r hr => eq_of_beq hr) (Does.read h rfl fun p hp => ?_)
  rw [Statement.run, hp.statusOf, Tables.statusOf]
  cases s.findTransaction t <;> rfl

/-- The `EXISTS` of the claim, as it is asked of the approval of the transaction. -/
theorem any_approvals (h : Ready env key s) (digest : String) :
    (s.approvals.any fun a => a.transactionId == t && a.receiptDigest == digest &&
      a.consumedAt.isNone) =
        ((liveApproval s t).map ApprovalRow.receiptDigest).any (· == digest) := by
  have hfilter := filter_unconsumedOf (t := t) h
  have hany : (s.approvals.any fun a => a.transactionId == t && a.receiptDigest == digest &&
      a.consumedAt.isNone) =
      (s.approvals.filter (ApprovalRow.unconsumedOf t)).any fun a => a.receiptDigest == digest := by
    rw [List.any_filter]
    congr 1
    funext a
    rw [ApprovalRow.unconsumedOf, Bool.and_assoc, Bool.and_assoc,
      Bool.and_comm (a.receiptDigest == digest)]
  rw [hany, hfilter]
  cases liveApproval s t <;> simp

theorem Does.setRunningIfClaimable (h : Ready env key s) (digest : String) :
    Does env clock key base tx (InTx env key base tx) s
      (Postgres.setRunningIfClaimable tx t digest)
      (.ok (s.setStatusWhere (fun r => r.transactionId == t && r.status == .queued &&
        withinTtl env clock r.createdAt &&
        s.approvals.any fun a => a.transactionId == t && a.receiptDigest == digest &&
          a.consumedAt.isNone) .running)) := by
  have hassoc : (fun r : TransactionRow => r.transactionId == t && r.status == .queued &&
      withinTtl env clock r.createdAt &&
      s.approvals.any fun a => a.transactionId == t && a.receiptDigest == digest &&
        a.consumedAt.isNone) = fun r => r.transactionId == t && (r.status == .queued &&
          withinTtl env clock r.createdAt &&
          ((liveApproval s t).map ApprovalRow.receiptDigest).any (· == digest)) := by
    funext r
    rw [any_approvals h, Bool.and_assoc, Bool.and_assoc, Bool.and_assoc]
  rw [hassoc]
  refine Does.updateFound h (fun r hr => ?_) (Does.read h rfl fun p hp => ?_)
  · simp only [Bool.and_eq_true] at hr
    exact eq_of_beq hr.1.1
  · rw [Statement.run, hp.findTransaction, ← hp.digest_unconsumed]
    cases s.findTransaction t <;> cases p.unconsumed t <;> rfl

theorem Does.findUnconsumed (h : Ready env key s) :
    Does env clock key base tx (InTx env key base tx) s (Postgres.exec tx (.findUnconsumed t))
      (.ok ((liveApproval s t).isSome, s)) :=
  Does.read h rfl fun _ hp => congrArg Except.ok (hp.isSome_unconsumed t)

/-- A statement that changes the approval of one transaction. -/
theorem Mirrors.setApproval {p : PgTables} {approvals : List ApprovalRow}
    {after : String → Option ApprovalRow} (hp : Mirrors s p)
    (hsame : (after t).map timeless =
      (Table.lookup ApprovalRow.transactionId t approvals).map timeless)
    (hafter : ∀ t', t' ≠ t → after t' = p.approvals t')
    (happrovals : ∀ t', t' ≠ t →
      Table.lookup ApprovalRow.transactionId t' approvals = s.findApproval t') :
    Mirrors { s with approvals := approvals } { p with approvals := after } := by
  refine ⟨hp.transactions, hp.events, hp.previews, fun t' => ?_⟩
  show (after t').map timeless =
    (Table.lookup ApprovalRow.transactionId t' approvals).map timeless
  by_cases ht : t' = t
  · rw [ht, hsame]
  · rw [hafter t' ht, happrovals t' ht, hp.approvals]

/-- An approval found under another transaction is not touched. -/
theorem unconsumedOf_of_ne {t' : String} {a : ApprovalRow} (ht : t' ≠ t)
    (ha : s.findApproval t' = some a) : ApprovalRow.unconsumedOf t a = false := by
  have hid : a.transactionId = t' := Table.key_of_lookup ha
  simp [ApprovalRow.unconsumedOf, hid, ht]

theorem exists_of_liveApproval (hlive : (liveApproval s t).isSome = true) :
    ∃ a, s.findApproval t = some a ∧ ApprovalRow.unconsumedOf t a = true := by
  obtain ⟨a, ha⟩ := Option.isSome_iff_exists.mp hlive
  rw [liveApproval, Option.filter_eq_some_iff] at ha
  have hid : a.transactionId = t := Table.key_of_lookup ha.1
  refine ⟨a, ha.1, ?_⟩
  rw [ApprovalRow.unconsumedOf, hid, beq_self_eq_true, ha.2]
  rfl

theorem Does.consumeUnconsumed (h : Ready env key s) (at_ : String) :
    Does env clock key base tx (InTx env key base tx) s (Postgres.consumeUnconsumed tx t at_)
      (.ok (s.approvals.countP (ApprovalRow.unconsumedOf t), { s with
        approvals := (Table.updateWhere (ApprovalRow.unconsumedOf t)
          (fun a => { a with consumedAt := some clock.datetime }) s.approvals).2 })) := by
  have hlookup := fun t' => @Table.lookup_updateWhere _ _ _ ApprovalRow.transactionId s.approvals
    (ApprovalRow.unconsumedOf t) (fun a => { a with consumedAt := some clock.datetime })
    (fun _ => rfl) t'
  rw [countP_unconsumedOf h]
  refine Does.step (Does.findUnconsumed h) ?_
  cases hlive : (liveApproval s t).isSome with
  | false =>
    rw [Table.updateWhere_of_count_zero (countP_eq_zero_of_not_live h hlive)]
    exact Does.pure (0 : ℕ)
  | true =>
    obtain ⟨a, ha, hun⟩ := exists_of_liveApproval hlive
    refine Does.exec (h.setApprovals (Table.uniqueKey_updateWhere (fun _ => rfl)
      h.keyed.approvals)) fun p hp =>
        ⟨?_, hp.setApproval ?_ (fun t' ht' => if_neg ht') fun t' ht' => ?_⟩
    · rw [Statement.run, hp.isSome_unconsumed, hlive]
    · -- both sides set a moment, each in its own form
      obtain ⟨b, hb, hab⟩ := Option.map_eq_some_iff.mp
        ((hp.approvals t).trans (congrArg (Option.map timeless) ha))
      rw [hlookup t, show Table.lookup _ t s.approvals = some a from ha, if_pos rfl, hb]
      simp only [Option.map_some, hun, if_true, timeless, ApprovalRow.mk.injEq,
        Option.some.injEq] at hab ⊢
      exact ⟨hab.1, hab.2.1, trivial⟩
    · rw [hlookup t', show Table.lookup _ t' s.approvals = s.findApproval t' from rfl]
      cases ha' : s.findApproval t' with
      | none => rfl
      | some a' => rw [Option.map_some, unconsumedOf_of_ne ht' ha', if_neg Bool.false_ne_true]

theorem Does.deleteUnconsumed (h : Ready env key s) :
    Does env clock key base tx (InTx env key base tx) s (Postgres.deleteUnconsumed tx t)
      (.ok (s.approvals.countP (ApprovalRow.unconsumedOf t), { s with
        approvals := (Table.deleteWhere (ApprovalRow.unconsumedOf t) s.approvals).2 })) := by
  have hlookup := Table.lookup_deleteWhere (p := ApprovalRow.unconsumedOf t) h.keyed.approvals
  rw [countP_unconsumedOf h]
  refine Does.step (Does.findUnconsumed h) ?_
  cases hlive : (liveApproval s t).isSome with
  | false =>
    rw [Table.deleteWhere_of_count_zero (countP_eq_zero_of_not_live h hlive)]
    exact Does.pure (0 : ℕ)
  | true =>
    obtain ⟨a, ha, hun⟩ := exists_of_liveApproval hlive
    refine Does.exec (h.setApprovals (Table.uniqueKey_deleteWhere h.keyed.approvals))
      fun p hp => ⟨?_, hp.setApproval ?_ (fun t' ht' => if_neg ht') fun t' ht' => ?_⟩
    · rw [Statement.run, hp.isSome_unconsumed, hlive]
    · rw [hlookup t, show Table.lookup _ t s.approvals = some a from ha, Option.filter_some, hun,
        if_pos rfl]
      rfl
    · rw [hlookup t', show Table.lookup _ t' s.approvals = s.findApproval t' from rfl]
      cases ha' : s.findApproval t' with
      | none => rfl
      | some a' => rw [Option.filter_some, unconsumedOf_of_ne ht' ha']; rfl

theorem Does.revokeUnconsumedApprovalInTx (h : Ready env key s) (signed : String) :
    Does env clock key base tx (InTx env key base tx) s
      (Postgres.revokeUnconsumedApprovalInTx key tx t signed)
      (Store.revokeUnconsumedApprovalInTx clock key t signed s) := by
  have hdigest : (s.approvals.find? (ApprovalRow.unconsumedOf t)).map ApprovalRow.receiptDigest =
      (liveApproval s t).map ApprovalRow.receiptDigest := by
    rw [← List.head?_filter, filter_unconsumedOf h]
    cases liveApproval s t <;> rfl
  rw [Store.revokeUnconsumedApprovalInTx, hdigest]
  refine Does.step (Does.read h rfl fun _ hp => congrArg Except.ok (hp.digest_unconsumed t)) ?_
  refine Does.step (Does.deleteUnconsumed h) ?_
  have hready := h.setApprovals (Table.uniqueKey_deleteWhere (p := ApprovalRow.unconsumedOf t)
    h.keyed.approvals)
  simp only [Table.deleteWhere, countP_unconsumedOf h] at hready ⊢
  cases liveApproval s t with
  | none => exact Does.pure false
  | some a => exact Does.step (Does.appendEvent hready _ _ _) (Does.pure true)

/-- The rows an approval is inserted for. -/
theorem filter_approvable (h : Ready env key s) :
    (s.transactions.filter fun r => r.transactionId == t && r.status == .queued &&
      withinTtl env clock r.createdAt && (s.findApproval t).isNone) =
    ((s.findTransaction t).filter fun r => r.status == .queued &&
      withinTtl env clock r.createdAt && (s.findApproval t).isNone).toList := by
  have hpinned : ∀ r : TransactionRow, (r.transactionId == t && r.status == .queued &&
      withinTtl env clock r.createdAt && (s.findApproval t).isNone) = true →
        r.transactionId = t := by
    intro r hr
    simp only [Bool.and_eq_true] at hr
    exact eq_of_beq hr.1.1.1
  rw [Table.filter_of_pinned h.keyed.transactions hpinned]
  cases hfind : s.findTransaction t with
  | none =>
    rw [show Table.lookup _ t s.transactions = none from hfind]
    rfl
  | some r =>
    have hid : r.transactionId = t :=
      @Table.key_of_lookup _ _ _ (fun r : TransactionRow => r.transactionId) _ _ _ hfind
    rw [show Table.lookup _ t s.transactions = some r from hfind, Option.filter_some,
      Option.filter_some, hid, beq_self_eq_true, Bool.true_and]

theorem Does.insertApprovalIfQueued (h : Ready env key s) (digest : String) :
    Does env clock key base tx (InTx env key base tx) s
      (Postgres.insertApprovalIfQueued tx t digest)
      (let selected := s.transactions.filter fun r => r.transactionId == t &&
        r.status == .queued && withinTtl env clock r.createdAt && (s.findApproval t).isNone
      .ok (selected.length, { s with
        approvals := s.approvals ++ selected.map fun r => ⟨r.transactionId, digest, none⟩ })) := by
  have hsearch : Does env clock key base tx (InTx env key base tx) s
      (Postgres.exec tx (.findApprovable t)) (.ok ((s.findTransaction t).any fun r =>
        r.status == .queued && withinTtl env clock r.createdAt, s)) :=
    Does.read h rfl fun _ hp => by rw [Statement.run, hp.findTransaction]
  dsimp only
  rw [filter_approvable h]
  refine Does.step hsearch ?_
  cases hfind : s.findTransaction t with
  | none =>
    rw [Option.any_none, Option.filter_none, Option.toList_none, List.map_nil, List.append_nil]
    exact Does.pure (0 : ℕ)
  | some r =>
    have hid : r.transactionId = t :=
      @Table.key_of_lookup _ _ _ (fun r : TransactionRow => r.transactionId) _ _ _ hfind
    rw [Option.any_some, Option.filter_some]
    by_cases hr : (r.status == .queued && withinTtl env clock r.createdAt) = true
    · rw [if_pos hr, hr, Bool.true_and]
      cases happroval : s.findApproval t with
      | some a =>
        -- `ON CONFLICT` here, `NOT EXISTS` there
        rw [Option.isNone_some, if_neg Bool.false_ne_true, Option.toList_none, List.map_nil,
          List.append_nil]
        show Does env clock key base tx _ s (Postgres.exec tx (.insertApproval ⟨t, digest, none⟩))
          (.ok ((0 : ℕ), s))
        refine Does.read h rfl fun p hp => ?_
        rw [Statement.run, hp.isSome_approvals, happroval, Option.isSome_some, if_pos rfl]
      | none =>
        rw [Option.isNone_none, if_pos rfl, Option.toList_some, List.map_singleton, hid]
        show Does env clock key base tx _ s (Postgres.exec tx (.insertApproval ⟨t, digest, none⟩))
          (.ok ((1 : ℕ), { s with approvals := s.approvals ++ [⟨t, digest, none⟩] }))
        refine Does.exec (h.setApprovals (Table.uniqueKey_concat h.keyed.approvals
          happroval)) fun p hp =>
            ⟨?_, hp.setApproval ?_ (fun t' ht' => if_neg ht') fun t' ht' => ?_⟩
        · rw [Statement.run, hp.isSome_approvals, happroval, Option.isSome_none,
            if_neg Bool.false_ne_true]
        · rw [Table.lookup_concat, if_pos rfl, if_pos rfl,
            show Table.lookup _ t s.approvals = none from happroval, Option.none_or]
        · rw [Table.lookup_concat, if_neg (Ne.symm ht'), Option.or_none]
          rfl
    · rw [if_neg hr, Bool.eq_false_of_not_eq_true hr, Bool.false_and, if_neg Bool.false_ne_true,
        Option.toList_none, List.map_nil, List.append_nil]
      exact Does.pure (0 : ℕ)

/-- The row of a new transaction is the same on both sides. -/
theorem transactionRow_eq (transactionId : String) (transaction : NewTransaction) :
    transactionRow env key s.transactions.getLast?
      ((s.events.getLast?.map EventRow.chainHash).getD "") clock.text transactionId transaction =
        newRow env clock key transactionId transaction s := by
  simp only [transactionRow, newRow, nextSeq, tipHash, Tables.eventChainTip, List.getLast?_map,
    Option.map_map]
  rfl

theorem Does.selectTransactionTipForUpdate (h : Ready env key s) :
    Does env clock key base tx (InTx env key base tx) s
      (Postgres.selectTransactionTipForUpdate tx) (.ok (s.transactions.getLast?, s)) := by
  refine Does.step (a := s.transactions.getLast?) (Does.read h rfl fun p hp => ?_) ?_
  · rw [Statement.run, hp.transactions, newest_eq_getLast? h.transactions]
  · cases s.transactions.getLast? with
    | none => exact Does.pure none
    | some row =>
      exact Does.step (a := s.statusOf row.transactionId)
        (Does.read h rfl fun _ hp => congrArg Except.ok (hp.statusOf _)) (Does.pure (some row))

theorem Does.insertTransaction (h : Ready env key s) (transaction : NewTransaction) :
    Does env clock key base tx (InTx env key base tx) s
      (Postgres.insertTransaction env key tx t transaction)
      (Store.insertTransaction env clock key t transaction s) := by
  refine Does.step Does.nowIso (Does.step (Does.selectTransactionTipForUpdate h)
    (Does.step (Does.selectEventTip h) ?_))
  rw [Store.insertTransaction, transactionRow_eq]
  split_ifs with hfound
  · refine Does.bind_error (Does.exec_error (Or.inr ⟨rfl, rfl⟩) fun p hp => ?_)
    rw [Statement.run, hp.findTransaction, newRow, if_pos hfound]
  · have hnew : s.findTransaction t = none := by simpa using hfound
    refine Does.step (a := ()) (Does.exec (h.insert transaction hnew) fun p hp => ⟨?_, ?_⟩)
      (Does.pure _)
    · rw [Statement.run, hp.findTransaction, newRow, if_neg hfound, if_neg]
      rw [hp.transactions, List.any_eq_true]
      rintro ⟨r, hr, hseq⟩
      refine (lt_next h.transactions hr).ne ?_
      rw [eq_of_beq hseq, nextSeq, List.getLast?_map, Option.map_map]
      rfl
    · exact ⟨by rw [← hp.transactions]; rfl, hp.events, hp.previews, hp.approvals⟩

end Pieces

/-! ### Operations -/

section Operations

variable (env : StoreEnv) (clock : Clock) (key : AuditKey)

/-- No transaction is open, and the tables mirror `s`. -/
structure Settled (s : Tables) (db : Db) : Prop where
  closed (tx : TxId) : db.sessions tx = none
  mirrors : Mirrors s db.committed
  ready : Ready env key s

/-- On a database that mirrors `s`, an operation comes to `result`: the same answer on tables that
mirror, or the same error on unchanged tables. -/
def Agrees {α : Type} (s : Tables) (q : Query α) (result : Except StoreError (α × Tables)) : Prop :=
  ∀ db, Settled env key s db →
    (∀ a s', result = .ok (a, s') →
      (alone env clock q db).1 = .ok a ∧ Settled env key s' (alone env clock q db).2) ∧
    ∀ e, result = .error e → ∃ e', (alone env clock q db).1 = .error e' ∧ SameError e e' ∧
      Settled env key s (alone env clock q db).2

variable {env clock key} {s : Tables} {t : String}

theorem Agrees.congr {α : Type} {q : Query α} {r r' : Except StoreError (α × Tables)}
    (h : Agrees env clock key s q r) (hr : r = r') : Agrees env clock key s q r' :=
  hr ▸ h

/-- An operation is one transaction, which ends with a commit or a rollback. -/
theorem agrees_begin {α : Type} {f : TxId → Query α} {result : Except StoreError (α × Tables)}
    (h : ∀ base tx, Does env clock key base tx (Ended env key base tx) s (f tx) result) :
    Agrees env clock key s (begin_ >>= f) result := by
  intro db hdb
  have hclosed : ∀ tx committed, ∀ tx', ({ ({ db with nextTx := db.nextTx + 1 } : Db).setSession tx
      none with committed := committed } : Db).sessions tx' = none := by
    intro tx committed tx'
    show (if tx' = tx then none else db.sessions tx') = none
    rw [hdb.closed, ite_self]
  have hbegin : alone env clock begin_ db = (.ok db.nextTx, db.open_) := rfl
  have hopen : InTx env key { db with nextTx := db.nextTx + 1 } db.nextTx s db.open_ :=
    ⟨[], [], rfl, hdb.mirrors, hdb.ready⟩
  obtain ⟨hok, herror⟩ := h _ _ _ hopen
  rw [alone_bind_of_ok hbegin]
  refine ⟨fun a s' hr => ?_, fun e hr => ?_⟩
  · obtain ⟨hanswer, committed, hended, hmirrors, hready⟩ := hok a s' hr
    rw [hended]
    exact ⟨hanswer, hclosed _ _, hmirrors, hready⟩
  · obtain ⟨e', hended, hsame⟩ := herror e hr
    rw [hended]
    exact ⟨e', rfl, hsame, hclosed _ _, hdb.mirrors, hdb.ready⟩

theorem requireKey_eq (hkey : env.auditKey = some key) (message : String) :
    requireKey env message = .ok key := by
  rw [requireKey, hkey]

theorem agrees_selectCommitment {α : Type} {f : Option (String × Option String) → Query α}
    {result : Except StoreError (α × Tables)}
    (h : Agrees env clock key s
      (f ((s.findTransaction t).map fun r => (r.requestHash, r.approvalId))) result) :
    Agrees env clock key s (selectCommitment t >>= f) result := by
  intro db hdb
  have hselect : alone env clock (selectCommitment t) db =
      (.ok ((s.findTransaction t).map fun r => (r.requestHash, r.approvalId)), db) := by
    rw [← hdb.mirrors.findTransaction]
    rfl
  rw [alone_bind_of_ok hselect]
  exact h db hdb

theorem agrees_pure {α : Type} (a : α) :
    Agrees env clock key s (pure a : Query α) (.ok (a, s)) := by
  intro db hdb
  refine ⟨fun a' s' h => ?_, fun e h => by cases h⟩
  obtain ⟨rfl, rfl⟩ := Prod.mk.inj (Except.ok.inj h)
  exact ⟨rfl, hdb⟩

theorem map_self {α : Type} (r : Except StoreError (α × Tables)) :
    (r.map fun x => (x.1, x.2)) = r := by
  cases r <;> rfl

theorem agrees_record (h : Ready env key s) (hkey : env.auditKey = some key)
    (transaction : NewTransaction) :
    Agrees env clock key s (Postgres.record env key t transaction)
      (Store.record env clock t transaction s) := by
  rw [Store.record, requireKey_eq hkey]
  exact agrees_begin fun base tx =>
    ((Does.insertTransaction h transaction).commit_map id).congr (map_self _)

/-- The preview goes with its transaction. -/
theorem Ready.insertPreview (h : Ready env key s) (preview : PreviewEnvelope)
    (hfound : (s.findTransaction t).isSome = true) :
    Ready env key { s with previews := s.previews ++ [(t, preview)] } := by
  refine ⟨⟨h.keyed.transactions, h.keyed.approvals⟩, h.transactions, h.events, fun t' ht' => ?_,
    h.committed⟩
  show (s.findTransaction t').isSome = true
  rw [Tables.getPreview, List.lookup_append, Option.isSome_or, Bool.or_eq_true] at ht'
  obtain ht' | ht' := ht'
  · exact h.previews t' ht'
  · by_cases heq : t' = t
    · rw [heq, hfound]
    · rw [List.lookup_cons, beq_eq_false_iff_ne.mpr heq] at ht'
      cases ht'

theorem Does.insertPreview {base : Db} {tx : TxId} (h : Ready env key s)
    (preview : PreviewEnvelope) (hfound : (s.findTransaction t).isSome = true)
    (hnew : s.getPreview t = none) :
    Does env clock key base tx (InTx env key base tx) s
      (Postgres.exec tx (.insertPreview t preview))
      (.ok ((), { s with previews := s.previews ++ [(t, preview)] })) := by
  refine Does.exec (h.insertPreview preview hfound) fun p hp => ⟨?_, hp.transactions, hp.events,
    fun t' => ?_, hp.approvals⟩
  · rw [Statement.run, hp.previews, hnew, Option.isSome_none, if_neg Bool.false_ne_true]
  · show (if t' = t then some preview else p.previews t') =
      (s.previews ++ [(t, preview)]).lookup t'
    rw [List.lookup_append, List.lookup_cons, hp.previews, Tables.getPreview]
    rw [Tables.getPreview] at hnew
    split_ifs with heq
    · rw [heq, hnew, beq_self_eq_true]
      rfl
    · rw [beq_eq_false_iff_ne.mpr heq]
      exact (Option.or_none).symm

theorem agrees_recordPreviewed (h : Ready env key s) (hkey : env.auditKey = some key)
    (transaction : NewTransaction) (preview : PreviewEnvelope) :
    Agrees env clock key s (Postgres.recordPreviewed env key t transaction preview)
      (Store.recordPreviewed env clock t transaction preview s) := by
  have hinsert := fun base tx => @Does.insertTransaction env clock key base tx s t h transaction
  rw [Store.recordPreviewed, requireKey_eq hkey]
  refine agrees_begin fun base tx => ?_
  specialize hinsert base tx
  show Does env clock key base tx _ s _ (Store.insertTransaction env clock key t transaction s >>=
    fun x => .ok (x.1, { x.2 with previews := x.2.previews ++ [(t, preview)] }))
  rw [Store.insertTransaction] at hinsert ⊢
  split_ifs at hinsert ⊢ with hfound
  · exact Does.bind_error hinsert
  · refine Does.step hinsert (Does.of_ready fun h' => ?_)
    have hlookup : Tables.findTransaction { s with
        transactions := s.transactions ++ [newRow env clock key t transaction s] } t =
        some (newRow env clock key t transaction s) := by
      have hnew : s.findTransaction t = none := by simpa using hfound
      have hid : (newRow env clock key t transaction s).transactionId = t := rfl
      rw [Tables.findTransaction, Table.lookup_concat, if_pos hid,
        show Table.lookup _ t s.transactions = none from hnew, Option.none_or]
    have hpreview : s.getPreview t = none := by
      by_contra hne
      exact hfound (h.previews t (Option.isSome_iff_ne_none.mpr hne))
    exact Does.step (Does.insertPreview h' preview (by rw [hlookup]; rfl) hpreview)
      (Does.commit_pure _)

theorem agrees_revoke (h : Ready env key s) (hkey : env.auditKey = some key)
    (revoker : CallerPrincipal) :
    Agrees env clock key s (Postgres.revokeUnconsumedApproval key t revoker)
      (Store.revokeUnconsumedApproval env clock t revoker s) := by
  rw [Store.revokeUnconsumedApproval, requireKey_eq hkey]
  exact agrees_begin fun base tx =>
    ((Does.revokeUnconsumedApprovalInTx h _).commit_map id).congr (map_self _)

theorem agrees_updateStatus (h : Ready env key s) (hkey : env.auditKey = some key)
    (newStatus : JobState) :
    Agrees env clock key s (Postgres.updateStatus key t newStatus)
      (Store.updateStatus env clock t newStatus s) := by
  refine agrees_begin fun base tx => ?_
  have hselect : Does env clock key base tx (InTx env key base tx) s
      (selectStatusForUpdate tx t) (.ok (s.statusOf t, s)) := by
    refine Does.step (a := (s.findTransaction t).isSome) (Does.read h rfl fun _ hp => ?_) ?_
    · rw [Statement.run, hp.findTransaction]
    · cases hfind : s.findTransaction t with
      | none =>
        rw [Tables.statusOf, hfind]
        exact Does.pure none
      | some r => exact Does.read h rfl fun _ hp => congrArg Except.ok (hp.statusOf _)
  refine Does.step hselect ?_
  rw [Store.updateStatus, Tables.statusOf]
  cases hfind : s.findTransaction t with
  | none => exact Does.abandon _
  | some r =>
    have hset : s.setStatusWhere (fun r' => r'.transactionId == t && r'.status == r.status)
        newStatus = (1, (s.setStatusWhere (fun r' => r'.transactionId == t) newStatus).2) := by
      rw [setStatusWhere_pinned h, hfind, Option.any_some, beq_self_eq_true, if_pos rfl]
    have hready := h.setStatusWhere (fun r' => r'.transactionId == t) newStatus
    rw [Option.map_some]
    dsimp only
    rw [hset, requireKey_eq hkey]
    dsimp only
    rw [if_neg Nat.one_ne_zero]
    split_ifs with hallowed
    · exact Does.abandon _
    · refine Does.step (a := (1 : ℕ)) (Does.exec hready fun p hp => ⟨?_, ?_⟩)
        (Does.step (Does.appendEvent hready _ _ _) Does.commit)
      · rw [Statement.run, hp.findTransaction, hfind]
        rfl
      · refine ⟨?_, hp.events, hp.previews, hp.approvals⟩
        show (Table.updateWhere _ _ p.transactions).2 = _
        rw [hp.transactions]
        rfl

theorem agrees_approve (h : Ready env key s) (hkey : env.auditKey = some key)
    (approver : CallerPrincipal) :
    Agrees env clock key s (approveTransaction env key t approver)
      (Store.approveTransaction env clock t approver s) := by
  refine agrees_selectCommitment ?_
  rw [Store.approveTransaction, requireKey_eq hkey, Tables.get]
  cases hfind : s.findTransaction t with
  | none => exact agrees_pure none
  | some r =>
    have hid : r.transactionId = t :=
      @Table.key_of_lookup _ _ _ (fun r : TransactionRow => r.transactionId) _ _ _ hfind
    have hcommitted : r.approvalId =
        some (approvalReceiptDigest env (key.approvalReceipt t r.requestHash)) := by
      rw [h.committed r (Table.mem_of_lookup hfind), hid]
      rfl
    rw [Option.map_some, Option.map_some]
    dsimp only [TransactionRow.toRecord]
    show Agrees env clock key s _ (Except.bind (.ok key) fun key => _)
    dsimp only [Except.bind]
    rw [hcommitted]
    dsimp only
    rw [if_neg (not_not_intro rfl), if_neg (not_not_intro rfl)]
    refine agrees_begin fun base tx => ?_
    refine Does.step (Does.insertApprovalIfQueued h _) (Does.of_ready fun h' => ?_)
    split_ifs with hpos
    · exact Does.step (Does.appendEvent h' _ _ _) (Does.commit_pure _)
    · exact Does.commit_pure none

theorem agrees_claim (h : Ready env key s) (hkey : env.auditKey = some key) (digest : String)
    (executor : CallerPrincipal) :
    Agrees env clock key s (claimApprovedForExecution key t digest executor)
      (Store.claimApprovedForExecution env clock t digest executor s) := by
  rw [Store.claimApprovedForExecution, requireKey_eq hkey]
  refine agrees_begin fun base tx => ?_
  have hset := @Does.setRunningIfClaimable env clock key base tx s t h digest
  have hready := h.setStatusWhere (fun r => r.transactionId == t && r.status == .queued &&
    withinTtl env clock r.createdAt && s.approvals.any fun a => a.transactionId == t &&
      a.receiptDigest == digest && a.consumedAt.isNone) .running
  rcases hrows : s.setStatusWhere (fun r => r.transactionId == t && r.status == .queued &&
    withinTtl env clock r.createdAt && s.approvals.any fun a => a.transactionId == t &&
      a.receiptDigest == digest && a.consumedAt.isNone) .running with ⟨rowsAffected, s'⟩
  rw [hrows] at hset hready
  refine Does.step hset ?_
  show Does env clock key base tx _ s' _ (Except.bind (.ok key) fun key => _)
  dsimp only [Except.bind]
  split_ifs with hpos
  · refine Does.step Does.nowIso (Does.step (Does.consumeUnconsumed hready _) ?_)
    refine Does.of_ready fun h' => Does.step (Does.appendEvent h' _ _ _) ?_
    exact Does.of_ready fun h'' => Does.step (Does.appendEvent h'' _ _ _) (Does.commit_pure true)
  · exact Does.commit_pure false

theorem Does.cancelQueuedInTx {base : Db} {tx : TxId} (h : Ready env key s) (signed : String) :
    Does env clock key base tx (InTx env key base tx) s
      (Postgres.cancelQueuedInTx key tx t signed)
      (Store.cancelQueuedInTx clock key t signed s) := by
  have hset := @Does.setStatusIfQueued env clock key base tx s t h .canceled
  have hready := h.setStatusWhere (fun r => r.transactionId == t && r.status == .queued) .canceled
  rcases hrows : s.setStatusWhere (fun r => r.transactionId == t && r.status == .queued)
    .canceled with ⟨rowsAffected, s'⟩
  rw [hrows] at hset hready
  rw [Store.cancelQueuedInTx, hrows]
  refine Does.step hset ?_
  dsimp only
  split_ifs with hpos
  · refine Does.bind (g := fun _ s₂ => .ok (rowsAffected, Store.appendEvent clock key
      .statusCanceled t "" .legacyV1 s₂)) (Does.revokeUnconsumedApprovalInTx hready signed)
      fun _ s₂ _ => ?_
    exact Does.of_ready fun h' => Does.step (Does.appendEvent h' _ _ _) (Does.pure _)
  · exact Does.pure (0 : ℕ)

theorem Does.cancelEach {base : Db} {tx : TxId} (ids : List String) (canceled : ℕ) :
    Does env clock key base tx (InTx env key base tx) s
      (Postgres.cancelEach key tx ids canceled)
      (Store.cancelEach clock key ids canceled s) := by
  induction ids generalizing s canceled with
  | nil => exact Does.pure canceled
  | cons id ids ih =>
    exact Does.of_ready fun h => Does.bind (Does.cancelQueuedInTx h _) fun n s' _ => ih _

theorem agrees_cleanup (h : Ready env key s) (hkey : env.auditKey = some key) :
    Agrees env clock key s (cleanupStaleQueued key) (Store.cleanupStaleQueued env clock s) := by
  rw [Store.cleanupStaleQueued, requireKey_eq hkey]
  refine agrees_begin fun base tx => Does.step (Does.read h rfl fun _ hp => ?_)
    (((Does.cancelEach _ 0).commit_map id).congr (map_self _))
  rw [Statement.run, hp.transactions]

theorem agrees_cancelQueued (h : Ready env key s) (hkey : env.auditKey = some key)
    (canceller : CallerPrincipal) :
    Agrees env clock key s (cancelQueued key t canceller)
      (Store.cancelQueued env clock t canceller s) := by
  rw [Store.cancelQueued, requireKey_eq hkey]
  refine agrees_begin fun base tx =>
    ((Does.cancelQueuedInTx h canceller.asSignedStr).commit_map fun n => decide (0 < n)).congr ?_
  show _ = Except.bind (Store.cancelQueuedInTx clock key t canceller.asSignedStr s) _
  cases Store.cancelQueuedInTx clock key t canceller.asSignedStr s <;> rfl

end Operations

/-! ### Both backends -/

open Store.Sqlite (WriteOp WriteAnswer served served_concat)

/-- The operation on the other backend. -/
def toPgRequest : WriteOp → PgRequest
  | .record t transaction => .record t transaction
  | .recordPreviewed t transaction preview => .recordPreviewed t transaction preview
  | .approve t approver => .approve t approver
  | .revoke t revoker => .revoke t revoker
  | .claim t digest executor => .claim t digest executor
  | .updateStatus t newStatus => .updateStatus t newStatus
  | .cancelQueued t canceller => .cancelQueued t canceller
  | .cleanup => .cleanup

/-- The operation of the PostgreSQL store, with its answer. -/
def PgStore.query (store : PgStore) : WriteOp → Query WriteAnswer
  | .record t transaction => .recorded <$> record store.env store.key t transaction
  | .recordPreviewed t transaction preview =>
    .recorded <$> recordPreviewed store.env store.key t transaction preview
  | .approve t approver => .receipt <$> approveTransaction store.env store.key t approver
  | .revoke t revoker => .changed <$> revokeUnconsumedApproval store.key t revoker
  | .claim t digest executor =>
    .changed <$> claimApprovedForExecution store.key t digest executor
  | .updateStatus t newStatus => (fun _ => .moved) <$> updateStatus store.key t newStatus
  | .cancelQueued t canceller => .changed <$> cancelQueued store.key t canceller
  | .cleanup => .canceled <$> cleanupStaleQueued store.key

/-- The database after operations that were served one after the other. -/
def PgStore.served (store : PgStore) (ops : List (Clock × WriteOp)) : Db :=
  store.system.serial (ops.map fun op => (toPgRequest op.2, quiet op.1))

/-- The same answer, or the same error. -/
def SameAnswer {α : Type} (r r' : Except StoreError α) : Prop :=
  (∀ a, r = .ok a → r' = .ok a) ∧ ∀ e, r = .error e → ∃ e', r' = .error e' ∧ SameError e e'

section Backends

variable {env : StoreEnv} {clock : Clock} {key : AuditKey} {s : Tables}

theorem alone_map {α β : Type} (q : Query α) (f : α → β) (db : Db) :
    alone env clock (f <$> q) db = ((alone env clock q db).1.map f, (alone env clock q db).2) := by
  rcases h : alone env clock q db with ⟨_ | a, db'⟩
  · exact alone_bind_of_error h
  · exact alone_bind_of_ok h

theorem Agrees.map {α β : Type} {q : Query α} {r : Except StoreError (α × Tables)}
    (h : Agrees env clock key s q r) (f : α → β) :
    Agrees env clock key s (f <$> q) (r.map fun x => (f x.1, x.2)) := by
  intro db hdb
  obtain ⟨hok, herror⟩ := h db hdb
  rw [alone_map]
  cases r with
  | error e =>
    obtain ⟨e', hanswer, hsame, hsettled⟩ := herror e rfl
    refine ⟨(fun _ _ h => by cases h), fun e₂ h => ⟨e', by rw [hanswer]; rfl, ?_, hsettled⟩⟩
    obtain rfl : e = e₂ := Except.error.inj h
    exact hsame
  | ok x =>
    obtain ⟨hanswer, hsettled⟩ := hok x.1 x.2 rfl
    refine ⟨fun b s' h => ?_, fun e h => by cases h⟩
    obtain ⟨rfl, rfl⟩ := Prod.mk.inj (Except.ok.inj h)
    exact ⟨by rw [hanswer]; rfl, hsettled⟩

/-- One operation. -/
theorem agrees_query (store : PgStore) (hkey : store.env.auditKey = some store.key)
    (h : Ready store.env store.key s) (op : WriteOp) :
    Agrees store.env clock store.key s (store.query op) (op.compute store.env clock s) := by
  cases op with
  | record t transaction => exact (agrees_record h hkey transaction).map _
  | recordPreviewed t transaction preview =>
    exact (agrees_recordPreviewed h hkey transaction preview).map _
  | approve t approver => exact (agrees_approve h hkey approver).map _
  | revoke t revoker => exact (agrees_revoke h hkey revoker).map _
  | claim t digest executor => exact (agrees_claim h hkey digest executor).map _
  | updateStatus t newStatus => exact (agrees_updateStatus h hkey newStatus).map _
  | cancelQueued t canceller => exact (agrees_cancelQueued h hkey canceller).map _
  | cleanup => exact (agrees_cleanup h hkey).map _

/-- The answer goes to the caller, and the database is left the same. -/
theorem alone_program (store : PgStore) (op : WriteOp) (db : Db) :
    ((store.program (toPgRequest op)).alone (fun db c => db.serve store.env (quiet clock) c) db).2 =
      (alone store.env clock (store.query op) db).2 := by
  have hrun {α β : Type} (q : Query α) (f : α → β) :
      ((do let _ ← q.run : Prog PgCall PgCall.Answer Unit).alone
        (fun db c => db.serve store.env (quiet clock) c) db).2 =
          (alone store.env clock (f <$> q) db).2 := by
    rw [alone_map, Prog.alone_bind]
    rfl
  cases op with
  | _ => exact hrun _ _

/-- One operation on both backends: the same answer, and tables that mirror each other again. -/
theorem served_step (store : PgStore) (hkey : store.env.auditKey = some store.key) {db : Db}
    (hdb : Settled store.env store.key s db) (op : WriteOp) (n : ℕ) :
    SameAnswer (op.program store.env (fun _ => .ok clock) ⟨s, none, n⟩).1
        (alone store.env clock (store.query op) db).1 ∧
      Settled store.env store.key
        (op.program store.env (fun _ => .ok clock) ⟨s, none, n⟩).2.committed
        (alone store.env clock (store.query op) db).2 := by
  obtain ⟨n', hrun⟩ := op.answers store.env clock s n
  obtain ⟨hok, herror⟩ := @agrees_query clock s store hkey hdb.ready op db hdb
  dsimp only at hrun
  rcases hresult : op.compute store.env clock s with e | ⟨a, s'⟩
  · rw [hresult] at hrun
    obtain ⟨e', hanswer, hsame, hsettled⟩ := herror e hresult
    rw [hrun, hanswer]
    refine ⟨⟨(fun _ h => by cases h), fun e₂ h => ⟨e', rfl, ?_⟩⟩, hsettled⟩
    obtain rfl : e = e₂ := Except.error.inj h
    exact hsame
  · rw [hresult] at hrun
    obtain ⟨hanswer, hsettled⟩ := hok a s' hresult
    rw [hrun, hanswer]
    exact ⟨⟨fun _ h => h, fun _ h => by cases h⟩, hsettled⟩

theorem settled_served (store : PgStore) (hkey : store.env.auditKey = some store.key)
    (ops : List (Clock × WriteOp)) :
    Settled store.env store.key (served store.env ops) (store.served ops) := by
  induction ops using List.reverseRecOn with
  | nil => exact ⟨fun _ => rfl, mirrors_empty, ready_empty store.env store.key⟩
  | append_singleton ops op ih =>
    have hpg : store.served (ops ++ [op]) =
        (alone store.env op.1 (store.query op.2) (store.served ops)).2 := by
      rw [PgStore.served, List.map_append, List.map_singleton, System.serial_concat]
      exact alone_program store op.2 _
    rw [served_concat, hpg]
    exact (served_step store hkey ih op.2 0).2

end Backends

/-- Record, approve and claim one transaction. -/
def sampleWrites : List (Clock × WriteOp) :=
  [(sampleClock, .record "tx-1"
      ⟨"req-1", "h1", "UpdateSystem", .high, "Update", [], .admin, .uid 1000⟩),
    (sampleClock, .approve "tx-1" (.uid 1000)),
    (sampleClock, .claim "tx-1" (approvalCommitment sampleEnv sampleKey "tx-1" "h1") (.uid 1000))]

end Sysknife.Postgres
