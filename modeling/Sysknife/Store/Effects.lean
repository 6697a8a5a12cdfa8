import Sysknife.Store.Chained
import Sysknife.Store.Lifecycle

/-!
# What the operations leave alone

The callers of the store rely on what an operation does *not* do to the transactions it is not
about: recorded columns stay, events are only appended and grants only by an approval
(`events_of_…`), and a transaction that is past its queue, with no standing approval, is changed
by `updateStatus` alone (`Settled`).
-/

namespace Sysknife.Store

open Audit Tables

/-- The transaction has left its queue and its approval does not stand. -/
structure Settled (s : Tables) (t : String) : Prop where
  status : ∃ st, s.statusOf t = some st ∧ st ≠ .queued
  approval : s.approvalOf t ≠ .granted

theorem Settled.same {s s' : Tables} {t : String} (h : Settled s t) (hsame : Same s s' t) :
    Settled s' t :=
  ⟨by rw [hsame.status]; exact h.status, by rw [hsame.approval]; exact h.approval⟩

theorem Tables.Same.trans {s s' s'' : Tables} {t : String} (h : Same s s' t)
    (h' : Same s' s'' t) : Same s s'' t :=
  ⟨h'.status.trans h.status, h'.approval.trans h.approval, h'.history.trans h.history⟩

/-- Events were appended, none of them a grant. -/
def NoGrants (s s' : Tables) : Prop :=
  ∃ new, s'.events = s.events ++ new ∧ ∀ e ∈ new, e.kind ≠ AuditEventKind.approvalGranted.asStr

namespace NoGrants

variable {s s' s'' : Tables}

theorem trans (h : NoGrants s s') (h' : NoGrants s' s'') : NoGrants s s'' := by
  obtain ⟨new, heq, hnew⟩ := h
  obtain ⟨new', heq', hnew'⟩ := h'
  refine ⟨new ++ new', by rw [heq', heq, List.append_assoc], fun e he => ?_⟩
  rcases List.mem_append.mp he with he | he
  · exact hnew e he
  · exact hnew' e he

/-- Appending an event that is no grant. -/
theorem appendEvent {clock : Clock} {key : AuditKey} {kind : AuditEventKind} {t digest : String}
    {identity : EventIdentity} (hkind : kind ≠ .approvalGranted) (h : NoGrants s s') :
    NoGrants s (Store.appendEvent clock key kind t digest identity s') := by
  obtain ⟨e, happend, he⟩ : ∃ e,
      (Store.appendEvent clock key kind t digest identity s').events = s'.events ++ [e] ∧
        e.kind = kind.asStr := ⟨_, rfl, rfl⟩
  refine h.trans ⟨[e], happend, fun e' he' => ?_⟩
  rw [List.mem_singleton] at he'
  rw [he', he]
  exact fun h => hkind (AuditEventKind.asStr_injective h)

/-- A statement that does not touch the events. -/
theorem of_events_eq (h : s'.events = s.events) : NoGrants s s' := ⟨[], by simp [h], by simp⟩

end NoGrants

section

variable {env : StoreEnv} {clock : Clock} {key : AuditKey} {s s' : Tables} {t : String}

/-! ### Inside the database transactions -/

theorem exists_revokeInTx {revoker : CallerPrincipal} {b : Bool}
    (h : revokeUnconsumedApproval env clock t revoker s = .ok (b, s')) :
    ∃ key, revokeUnconsumedApprovalInTx clock key t revoker.asSignedStr s = .ok (b, s') := by
  obtain ⟨key, -, h⟩ := exists_of_bind_eq_ok h
  exact ⟨key, h⟩

theorem exists_cancelInTx {canceller : CallerPrincipal} {b : Bool}
    (h : cancelQueued env clock t canceller s = .ok (b, s')) :
    ∃ key n, cancelQueuedInTx clock key t canceller.asSignedStr s = .ok (n, s') := by
  obtain ⟨key, -, h⟩ := exists_of_bind_eq_ok h
  obtain ⟨⟨n, s₁⟩, hcancel, h⟩ := exists_of_bind_eq_ok h
  obtain ⟨-, rfl⟩ := Prod.mk.inj (Except.ok.inj h)
  exact ⟨key, n, hcancel⟩

theorem exists_cancelEach {n : ℕ} (h : cleanupStaleQueued env clock s = .ok (n, s')) :
    ∃ key ids, cancelEach clock key ids 0 s = .ok (n, s') := by
  obtain ⟨key, -, h⟩ := exists_of_bind_eq_ok h
  exact ⟨key, _, h⟩

/-! ### Events -/

theorem noGrants_revokeInTx {who : String} {b : Bool}
    (h : revokeUnconsumedApprovalInTx clock key t who s = .ok (b, s')) : NoGrants s s' := by
  unfold revokeUnconsumedApprovalInTx at h
  simp only at h
  split_ifs at h
  · split at h
    · cases h
    · obtain ⟨-, rfl⟩ := Prod.mk.inj (Except.ok.inj h)
      exact .appendEvent (by decide) (.of_events_eq rfl)
  · obtain ⟨-, rfl⟩ := Prod.mk.inj (Except.ok.inj h)
    exact .of_events_eq rfl

theorem noGrants_cancelInTx {who : String} {n : ℕ}
    (h : cancelQueuedInTx clock key t who s = .ok (n, s')) : NoGrants s s' := by
  unfold cancelQueuedInTx at h
  simp only at h
  split_ifs at h
  · obtain ⟨⟨b, s₁⟩, hrevoke, h⟩ := exists_of_bind_eq_ok h
    obtain ⟨-, rfl⟩ := Prod.mk.inj (Except.ok.inj h)
    have hstatus : NoGrants s (s.setStatusWhere
        (fun r => r.transactionId == t && r.status == .queued) .canceled).2 := .of_events_eq rfl
    exact .appendEvent (by decide) (hstatus.trans (noGrants_revokeInTx hrevoke))
  · obtain ⟨-, rfl⟩ := Prod.mk.inj (Except.ok.inj h)
    exact .of_events_eq rfl

theorem noGrants_cancelEach {ids : List String} {k n : ℕ}
    (h : cancelEach clock key ids k s = .ok (n, s')) : NoGrants s s' := by
  induction ids generalizing k s with
  | nil =>
    obtain ⟨-, rfl⟩ := Prod.mk.inj (Except.ok.inj h)
    exact .of_events_eq rfl
  | cons id ids ih =>
    obtain ⟨⟨m, s₁⟩, hcancel, hrest⟩ := exists_of_bind_eq_ok h
    exact (noGrants_cancelInTx hcancel).trans (ih hrest)

theorem noGrants_claim {digest : String} {executor : CallerPrincipal} {b : Bool}
    (h : claimApprovedForExecution env clock t digest executor s = .ok (b, s')) :
    NoGrants s s' := by
  obtain ⟨key, -, h⟩ := exists_of_bind_eq_ok h
  simp only at h
  split_ifs at h
  · obtain ⟨-, rfl⟩ := Prod.mk.inj (Except.ok.inj h)
    exact .appendEvent (by decide) (.appendEvent (by decide) (.of_events_eq rfl))
  · obtain ⟨-, rfl⟩ := Prod.mk.inj (Except.ok.inj h)
    exact .of_events_eq rfl

theorem noGrants_updateStatus {new : JobState} {u : Unit}
    (h : updateStatus env clock t new s = .ok (u, s')) : NoGrants s s' := by
  unfold updateStatus at h
  split at h
  · cases h
  · simp only at h
    split_ifs at h
    obtain ⟨key, -, h⟩ := exists_of_bind_eq_ok h
    obtain ⟨-, rfl⟩ := Prod.mk.inj (Except.ok.inj h)
    refine .appendEvent ?_ (.of_events_eq rfl)
    cases new <;> decide

/-- An approval appends the grant of its transaction, under the approver's name, or nothing. -/
theorem events_of_approve {approver : CallerPrincipal} {receipt : Option String}
    (h : approveTransaction env clock t approver s = .ok (receipt, s')) :
    s'.events = s.events ∨ (receipt.isSome = true ∧ ∃ e, s'.events = s.events ++ [e] ∧
      e.transactionId = t ∧ e.callerPrincipal = some approver.asSignedStr) := by
  obtain ⟨key, -, h⟩ := exists_of_bind_eq_ok h
  split at h
  · obtain ⟨-, rfl⟩ := Prod.mk.inj (Except.ok.inj h)
    exact .inl rfl
  simp only at h
  split at h
  · cases h
  split_ifs at h
  · obtain ⟨rfl, rfl⟩ := Prod.mk.inj (Except.ok.inj h)
    exact .inr ⟨rfl, _, rfl, rfl, rfl⟩
  · obtain ⟨-, rfl⟩ := Prod.mk.inj (Except.ok.inj h)
    exact .inl rfl

/-! ### Recording -/

/-- Recording appends the row of the new transaction, and nothing else. -/
theorem recordPreviewed_spec {tx : NewTransaction} {preview : PreviewEnvelope}
    {rec_ : TransactionRecord} (h : recordPreviewed env clock t tx preview s = .ok (rec_, s')) :
    rec_.transactionId = t ∧ s.fetchChainRow t = none ∧ s'.events = s.events ∧
      ∃ row, s'.chainRows = s.chainRows ++ [row] ∧ row.transactionId = t ∧
        row.actionName = tx.actionName ∧ row.requestHash = tx.requestHash ∧
        row.callerPrincipal = some tx.callerPrincipal.asSignedStr := by
  obtain ⟨key, -, h⟩ := exists_of_bind_eq_ok h
  obtain ⟨⟨rec', s₁⟩, hinsert, h⟩ := exists_of_bind_eq_ok h
  obtain ⟨rfl, rfl⟩ := Prod.mk.inj (Except.ok.inj h)
  unfold insertTransaction at hinsert
  split_ifs at hinsert with hfound
  obtain ⟨rfl, rfl⟩ := Prod.mk.inj (Except.ok.inj hinsert)
  have hnone : s.findTransaction t = none := by simpa using hfound
  refine ⟨rfl, by rw [fetchChainRow, hnone, Option.map_none], rfl,
    (newRow env clock key t tx s).toChainRow, by simp [chainRows], rfl, rfl, rfl, rfl⟩

/-- A lookup in the rows of the table. -/
theorem fetchChainRow_eq (s : Tables) (t : String) :
    s.fetchChainRow t = Table.lookup ChainRow.transactionId t s.chainRows := by
  simp only [fetchChainRow, findTransaction, Table.lookup, chainRows, List.find?_map]
  rfl

theorem fetchChainRow_of_chainRows (h : s'.chainRows = s.chainRows) (t : String) :
    s'.fetchChainRow t = s.fetchChainRow t := by
  rw [fetchChainRow_eq, fetchChainRow_eq, h]

/-- A transaction that was recorded keeps its columns when another is recorded. -/
theorem fetchChainRow_of_concat {row : ChainRow} (h : s'.chainRows = s.chainRows ++ [row])
    (ht : row.transactionId ≠ t) : s'.fetchChainRow t = s.fetchChainRow t := by
  rw [fetchChainRow_eq, fetchChainRow_eq, h, Table.lookup_concat, if_neg ht, Option.or_none]

/-! ### Grants -/

/-- An entry of a selection is an entry of the whole, with the rest of the selection after it. -/
theorem exists_split_of_filter {α β : Type} {l : List α} {P : α → Bool} {f : α → β} {a b : List β}
    {k : β} (h : (l.filter P).map f = a ++ k :: b) :
    ∃ l₁ x l₂, l = l₁ ++ x :: l₂ ∧ P x = true ∧ f x = k ∧ (l₂.filter P).map f = b := by
  obtain ⟨m₁, m₂, hfilter, -, hm₂⟩ := List.map_eq_append_iff.mp h
  obtain ⟨x, m₃, rfl, hx, hm₃⟩ := List.map_eq_cons_iff.mp hm₂
  obtain ⟨l₁, l₂, hl, -, hl₂⟩ := List.filter_eq_append_iff.mp hfilter
  obtain ⟨l₃, l₄, hl₃, -, hP, hl₄⟩ := List.filter_eq_cons_iff.mp hl₂
  refine ⟨l₁ ++ l₃, x, l₄, by rw [hl, hl₃, List.append_assoc], hP, hx, by rw [hl₄, hm₃]⟩

/-- A transaction with an approval, standing or spent, has a grant that was not revoked since. -/
theorem exists_grant (hs : Lives s) (happroval : s.approvalOf t ≠ .absent) :
    ∃ before grant after, s.events = before ++ grant :: after ∧
      grant.kind = AuditEventKind.approvalGranted.asStr ∧ grant.transactionId = t ∧
      ∀ e ∈ after, e.transactionId = t → e.kind ≠ AuditEventKind.approvalRevoked.asStr := by
  have hlives := hs.lives t
  cases hst : s.statusOf t with
  | none =>
    rw [LivesAt, hst] at hlives
    exact absurd hlives.2 happroval
  | some st =>
    obtain ⟨h, hhist, hrun⟩ := livesAt_of_status hlives hst
    obtain ⟨a, b, rfl, hb⟩ := hrun.liveGrant happroval
    rw [List.map_append, List.map_cons] at hhist
    obtain ⟨before, grant, after, heq, hgrant, hkind, hafter⟩ := exists_split_of_filter hhist
    refine ⟨before, grant, after, heq, hkind, by simpa using hgrant, fun e he het hrevoked => hb ?_⟩
    have hmem : AuditEventKind.approvalRevoked.asStr ∈ b.map AuditEventKind.asStr := by
      rw [← hafter, ← hrevoked]
      exact List.mem_map_of_mem (List.mem_filter.mpr ⟨he, by simpa using het⟩)
    obtain ⟨k, hk, hkeq⟩ := List.mem_map.mp hmem
    exact AuditEventKind.asStr_injective hkeq ▸ hk

/-! ### Settled transactions -/

theorem same_of_approve {t' : String} {approver : CallerPrincipal} {receipt : Option String}
    (hs : Lives s) (hsettled : Settled s t')
    (h : approveTransaction env clock t approver s = .ok (receipt, s')) : Same s s' t' := by
  rcases approveTransaction_spec hs.keyed h with ⟨-, rfl⟩ | ⟨-, hst, -, htouched⟩
  · exact .rfl
  · refine htouched.frame t' fun heq => ?_
    obtain ⟨st, hst', hne⟩ := hsettled.status
    rw [heq, hst] at hst'
    exact hne (Option.some.inj hst').symm

theorem same_of_claim {t' digest : String} {executor : CallerPrincipal} {b : Bool}
    (hs : Lives s) (hsettled : Settled s t')
    (h : claimApprovedForExecution env clock t digest executor s = .ok (b, s')) :
    Same s s' t' := by
  rcases claimApprovedForExecution_spec hs.keyed h with ⟨-, rfl⟩ | ⟨-, -, hgranted, htouched⟩
  · exact .rfl
  · exact htouched.frame t' fun heq => hsettled.approval (heq ▸ hgranted)

theorem same_of_revokeInTx {t' who : String} {b : Bool} (hs : Lives s) (hsettled : Settled s t')
    (h : revokeUnconsumedApprovalInTx clock key t who s = .ok (b, s')) : Same s s' t' := by
  rcases revokeUnconsumedApprovalInTx_spec hs.keyed h with ⟨-, rfl, -⟩ | ⟨-, hgranted, htouched⟩
  · exact .rfl
  · obtain ⟨st, hst⟩ := hs.recorded_of_granted hgranted
    exact (htouched st hst).frame t' fun heq => hsettled.approval (heq ▸ hgranted)

theorem same_of_cancelInTx {t' who : String} {n : ℕ} (hs : Lives s) (hsettled : Settled s t')
    (h : cancelQueuedInTx clock key t who s = .ok (n, s')) : Same s s' t' := by
  rcases cancelQueuedInTx_spec hs.keyed h with ⟨-, rfl⟩ | ⟨-, hst, a, ks, -, htouched⟩
  · exact .rfl
  · refine htouched.frame t' fun heq => ?_
    obtain ⟨st, hst', hne⟩ := hsettled.status
    rw [heq, hst] at hst'
    exact hne (Option.some.inj hst').symm

theorem same_of_cancelEach {t' : String} {ids : List String} {k n : ℕ} (hs : Lives s)
    (hsettled : Settled s t') (h : cancelEach clock key ids k s = .ok (n, s')) : Same s s' t' := by
  induction ids generalizing k s with
  | nil =>
    obtain ⟨-, rfl⟩ := Prod.mk.inj (Except.ok.inj h)
    exact .rfl
  | cons id ids ih =>
    obtain ⟨⟨m, s₁⟩, hcancel, hrest⟩ := exists_of_bind_eq_ok h
    have hstep := same_of_cancelInTx hs hsettled hcancel
    exact hstep.trans (ih (lives_cancelInTx hs hcancel) (hsettled.same hstep) hrest)

theorem same_of_recordPreviewed {t' : String} {tx : NewTransaction} {preview : PreviewEnvelope}
    {rec_ : TransactionRecord} (hs : Lives s) (hsettled : Settled s t')
    (h : recordPreviewed env clock t tx preview s = .ok (rec_, s')) : Same s s' t' := by
  obtain ⟨key, -, h⟩ := exists_of_bind_eq_ok h
  obtain ⟨⟨rec', s₁⟩, hinsert, h⟩ := exists_of_bind_eq_ok h
  obtain ⟨-, rfl⟩ := Prod.mk.inj (Except.ok.inj h)
  obtain ⟨hnone, htouched⟩ := insertTransaction_spec hs.keyed hinsert
  have hframe := htouched.frame t' fun heq => by
    obtain ⟨st, hst, -⟩ := hsettled.status
    rw [heq, hnone] at hst
    cases hst
  exact ⟨hframe.status, hframe.approval, hframe.history⟩

end

end Sysknife.Store
