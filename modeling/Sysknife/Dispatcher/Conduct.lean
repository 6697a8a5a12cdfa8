import Mathlib.Data.List.Induction
import Sysknife.Dispatcher.Handlers

/-!
# How the handlers conduct themselves

What one request does, whatever its calls are answered and whatever happens in between: its
calls are read by an automaton that keeps track of its `Progress`, `Allowed` says when each
call may be made, and `Done` what holds when the handler returns. `conducts` is the proof, made
once along the handlers' code, that they keep to it; the results about all interleavings
(`Binding`, `Exclusive`, `Terminal`) only use that.
-/

namespace Sysknife.Dispatcher

open Store

/-! ### Progress -/

/-- What a request has learned and done so far. -/
structure Progress where
  /-- The transaction, as last read. -/
  record : Option TransactionRecord := none
  /-- The answer of the ownership query. -/
  owner : Option (Option Audit.ChainRow) := none
  /-- The gate was passed. -/
  admitted : Bool := false
  /-- The approval was spent. -/
  claimed : Bool := false
  /-- The captured preview, as read for the re-check. -/
  preview : Option (Except StoreError (Option PreviewEnvelope)) := none
  /-- The live answer of the re-check. -/
  live : Option (Except String String) := none
  /-- The action was started. -/
  started : Bool := false
  /-- How the action ended. -/
  result : Option ExecutionResult := none
  /-- An automatic rollback was executed. -/
  rolledBack : Bool := false
  /-- The slots were released. -/
  released : Bool := false
  /-- The status that was written. -/
  recorded : Option JobState := none
  /-- How many status writes failed. -/
  failedWrites : ℕ := 0

/-- Progress made by one call and its answer. -/
def Progress.next (g : Progress) : (c : DaemonCall) → c.Answer → Progress
  | .get _, .ok (some record) => { g with record := some record }
  | .fetchChainRow _, .ok row => { g with owner := some row }
  | .enterGate _ _ _, none => { g with admitted := true }
  | .claimApprovedForExecution _ _ _, .ok true => { g with claimed := true }
  | .getPreview _, answer => { g with preview := some answer }
  | .runCommand _ _, answer => { g with live := some answer }
  | .executeWithProgress _, _ => { g with started := true }
  | .executionResult, answer => { g with result := some answer.2 }
  | .execute _, _ => { g with rolledBack := true }
  | .release _ _, _ => { g with released := true }
  | .updateStatus _ status, .ok () => { g with recorded := some status }
  | .updateStatus _ _, .error _ => { g with failedWrites := g.failedWrites + 1 }
  | _, _ => g

/-- The ownership check did not refuse: the caller is attributed to an account, which created the
transaction, or there was none. -/
def Progress.Owned (g : Progress) (caller : CallerAttribution) : Prop :=
  caller.principal ≠ .unattributed ∧ (g.owner = some none ∨
    ∃ row, g.owner = some (some row) ∧ row.callerPrincipal = some caller.principal.asSignedStr)

/-- The checks of `handle_execute` before the gate. -/
structure Checked (d : Daemon) (g : Progress) (r : ExecuteRequest) (spec : ActionSpec) : Prop where
  spec_eq : d.buildActionSpec r.actionName r.params = .ok spec
  role : d.policy.actionAllowed r.caller.role r.actionName = true
  owned : g.Owned r.caller
  record : ∃ tx, g.record = some tx ∧ tx.actionName = r.actionName ∧
    tx.requestHash = computeRequestHash d r.actionName r.params

/-- An ended execution counts as failed. -/
def failed (result : ExecutionResult) : Bool :=
  match result with
  | .ok out => !out.isSuccess
  | .error _ => true

/-- When a request may make a call. -/
def Allowed (d : Daemon) (req : Request) (g : Progress) : DaemonCall → Prop
  | .get t | .getPreview t | .fetchChainRow t => req.transactionId = some t
  | .recordPreviewed tx _ => ∃ r, req = .preview r ∧ tx.actionName = r.actionName ∧
      tx.requestHash = computeRequestHash d r.actionName r.params ∧
      tx.callerPrincipal = r.caller.principal
  | .approveTransaction t approver => ∃ r, req = .approve r ∧ t = r.transactionId ∧
      approver = r.caller.principal ∧ g.record.isSome ∧ g.Owned r.caller
  | .enterGate own claims requestHash => ∃ r spec, req = .execute r ∧ Checked d g r spec ∧
      own = exclusiveResource spec ∧ claims = toClaim d r.actionName spec ∧
      requestHash = computeRequestHash d r.actionName r.params ∧
      isMutating d r.actionName spec = true ∧
      g.admitted = false ∧ g.claimed = false ∧ g.released = false
  | .claimApprovedForExecution t _ executor => ∃ r spec, req = .execute r ∧ Checked d g r spec ∧
      t = r.transactionId ∧ executor = r.caller.principal ∧
      g.admitted = isMutating d r.actionName spec ∧ g.claimed = false ∧ g.released = false
  | .executeWithProgress spec => ∃ r, req = .execute r ∧ Checked d g r spec ∧
      g.admitted = isMutating d r.actionName spec ∧ g.claimed = true ∧ g.started = false ∧
      g.released = false
  | .execute rollback => ∃ r spec result, req = .execute r ∧
      d.buildActionSpec r.actionName r.params = .ok spec ∧ spec.rollbackAvailable = true ∧
      rollbackSpecFor r.actionName = some rollback ∧ g.claimed = true ∧ g.started = true ∧
      g.result = some result ∧ failed result = true ∧ mayStillBeRunning result = false ∧
      g.rolledBack = false ∧ g.released = false
  | .release claims requestHash => ∃ r spec, req = .execute r ∧
      d.buildActionSpec r.actionName r.params = .ok spec ∧
      claims = toClaim d r.actionName spec ∧
      requestHash = computeRequestHash d r.actionName r.params ∧
      g.admitted = isMutating d r.actionName spec ∧ g.released = false
  | .updateStatus t status => ∃ r, req = .execute r ∧ t = r.transactionId ∧ g.claimed = true ∧
      g.recorded = none ∧ status.isTerminal = true
  | _ => True

/-- The handlers' automaton. -/
@[reducible] def conduct (d : Daemon) : Monitor DaemonCall DaemonCall.Answer where
  State := Request × Progress
  next s c answer := (s.1, s.2.next c answer)
  allowed s c := Allowed d s.1 s.2 c

/-- What a preview and a live answer have to be for the re-checks of an action to pass; for
actions without a re-check, nothing. -/
def RecheckPasses (d : Daemon) (r : ExecuteRequest)
    (preview : Option (Except StoreError (Option PreviewEnvelope)))
    (live : Option (Except String String)) : Prop :=
  (r.actionName = "AptAutoremove" → ∃ captured answer, preview = some (.ok (some captured)) ∧
    live = some answer ∧ judgeAutoremove captured answer = .ok ()) ∧
  (r.actionName = "PinDeployment" ∨ r.actionName = "UnpinDeployment" →
    ∃ captured index answer, preview = some (.ok (some captured)) ∧
      (r.params.get "index").bind Value.asU64 = some index ∧
      live = some answer ∧ judgeDeployment d index captured answer = .ok ())

/-- What holds when a handler returns. -/
structure Done (d : Daemon) (req : Request) (g : Progress) : Prop where
  /-- Slots are given back, unless the action may still be running. -/
  releases : g.admitted = true → g.released = true ∨
    ∃ result, g.result = some result ∧ mayStillBeRunning result = true
  /-- A spent approval has its outcome recorded exactly when the re-checks passed, unless every
  attempt to write it failed, or the transaction was found to have one. -/
  records : ∀ r, req = .execute r → g.claimed = true →
    terminalStatusRetryAttempts ≤ g.failedWrites ∨
    (g.recorded = none ∧ ∃ tx, g.record = some tx ∧ tx.status.isTerminal = true) ∨
    (g.recorded.isSome = true ↔ RecheckPasses d r g.preview g.live)

/-! ### The handlers' calls -/

section Obeys

variable {d : Daemon} {req : Request} {g : Progress} {α : Type}
  {post : Request × Progress → α → Prop}

/-- Sending is always allowed and leaves no trace. -/
theorem obeys_send {response : DaemonResponse} {f : Outcome → Handler α}
    (h : ∀ o, (conduct d).Obeys post (f o) (req, g)) :
    (conduct d).Obeys post (sendResponse response >>= f) (req, g) :=
  Monitor.obeys_perform_bind trivial h

theorem obeys_sendResponse {response : DaemonResponse} {post : Request × Progress → Outcome → Prop}
    (h : ∀ o, post (req, g) o) : (conduct d).Obeys post (sendResponse response) (req, g) :=
  Monitor.obeys_perform trivial h

theorem obeys_sendError {requestId category message : String}
    {post : Request × Progress → Outcome → Prop} (h : ∀ o, post (req, g) o) :
    (conduct d).Obeys post (sendError requestId category message) (req, g) :=
  obeys_sendResponse h

theorem obeys_sendBestEffort {response : DaemonResponse} {f : Unit → Handler α}
    (h : (conduct d).Obeys post (f ()) (req, g)) :
    (conduct d).Obeys post (sendBestEffort response >>= f) (req, g) :=
  Monitor.obeys_bind (obeys_send fun _ => h)

theorem obeys_sendLines {jobId : String} {lines : List String} {f : Unit → Handler α}
    (h : (conduct d).Obeys post (f ()) (req, g)) :
    (conduct d).Obeys post (sendLines jobId lines >>= f) (req, g) := by
  refine Monitor.obeys_bind ?_
  induction lines with
  | nil => exact h
  | cons line rest ih => exact obeys_sendBestEffort ih

/-- After the ownership check, a caller that was not refused owns the transaction. -/
theorem obeys_callerOwnsTransaction {caller : CallerAttribution} {t : String}
    {f : Ownership → Handler α} (ht : req.transactionId = some t)
    (hrefused : ∀ o g', g'.admitted = g.admitted → g'.claimed = g.claimed →
      (o = .notOwned ∨ ∃ m, o = .cannotEstablish m) → (conduct d).Obeys post (f o) (req, g'))
    (hpassed : ∀ o owner, (o = .owned ∨ o = .noSuchTransaction) →
      Progress.Owned { g with owner := some owner } caller →
        (conduct d).Obeys post (f o) (req, { g with owner := some owner })) :
    (conduct d).Obeys post (callerOwnsTransaction caller t >>= f) (req, g) := by
  unfold callerOwnsTransaction
  split_ifs with hprincipal
  · exact hrefused _ g rfl rfl (.inr ⟨_, rfl⟩)
  · refine Monitor.obeys_bind (Monitor.obeys_perform_bind ht fun answer => ?_)
    match answer with
    | .error e => exact hrefused _ _ rfl rfl (.inr ⟨_, rfl⟩)
    | .ok none => exact hpassed _ none (.inr rfl) ⟨hprincipal, .inl rfl⟩
    | .ok (some row) =>
      simp only
      cases hrow : row.callerPrincipal with
      | none => exact hrefused _ _ rfl rfl (.inr ⟨_, rfl⟩)
      | some owner =>
        simp only
        split_ifs with howner
        · exact hpassed _ (some row) (.inl rfl)
            ⟨hprincipal, .inr ⟨row, rfl, by rw [hrow, howner]⟩⟩
        · exact hrefused _ _ rfl rfl (.inl rfl)

/-- After the authorization, a request that was not refused knows the transaction and owns it. -/
theorem obeys_authorizeForTransaction {r : TransactionRequest} {category message : String}
    {f : Except HandlerError Bool → Handler α} (ht : req.transactionId = some r.transactionId)
    (hrefused : ∀ o g', g'.admitted = g.admitted → (o = .ok false ∨ ∃ e, o = .error e) →
      (conduct d).Obeys post (f o) (req, g'))
    (hpassed : ∀ tx owner,
      Progress.Owned { g with record := some tx, owner := some owner } r.caller →
      (conduct d).Obeys post (f (.ok true))
        (req, { g with record := some tx, owner := some owner })) :
    (conduct d).Obeys post (authorizeForTransaction d r category message >>= f) (req, g) := by
  -- `k` stands for what the function does with the outcome of the message
  have hrefuse (g' : Progress) (hg : g'.admitted = g.admitted) (category message : String)
      (k : Outcome → Handler (Except HandlerError Bool)) (hok : k (.ok ()) = pure (.ok false))
      (herror : ∀ e, k (.error e) = pure (.error e)) :
      (conduct d).Obeys (fun s o => (conduct d).Obeys post (f o) s)
        (sendError r.requestId category message >>= k) (req, g') := by
    refine obeys_send fun o => ?_
    rcases o with e | ⟨⟩
    · rw [herror]
      exact hrefused _ g' hg (.inr ⟨e, rfl⟩)
    · rw [hok]
      exact hrefused _ g' hg (.inl rfl)
  refine Monitor.obeys_bind (Monitor.obeys_perform_bind ht fun answer => ?_)
  rcases answer with e | _ | tx
  · exact hrefuse g rfl _ _ _ rfl fun _ => rfl
  · exact hrefuse g rfl _ _ _ rfl fun _ => rfl
  · refine obeys_callerOwnsTransaction ht (fun o g' hadmitted _ ho => ?_)
      (fun o owner ho howned => ?_)
    · rcases ho with rfl | ⟨m, rfl⟩
      · exact hrefuse g' hadmitted _ _ _ rfl fun _ => rfl
      · exact hrefuse g' hadmitted _ _ _ rfl fun _ => rfl
    · have hrole (k : Outcome → Handler (Except HandlerError Bool))
          (hok : k (.ok ()) = pure (.ok false)) (herror : ∀ e, k (.error e) = pure (.error e)) :
          (conduct d).Obeys (fun s o => (conduct d).Obeys post (f o) s)
            (if d.policy.actionAllowed r.caller.role tx.actionName then pure (.ok true)
              else sendError r.requestId "authorization_failure"
                (authorizationFailureMessage d r.caller.role tx.actionName) >>= k)
            (req, { g with record := some tx, owner := some owner }) := by
        split_ifs
        · exact hpassed tx owner howned
        · exact hrefuse { g with record := some tx, owner := some owner } rfl _ _ k hok herror
      rcases ho with rfl | rfl
      · exact hrole _ rfl fun _ => rfl
      · exact hrole _ rfl fun _ => rfl

/-- A request that is no execution leaves nothing behind if it never passed the gate. -/
theorem done_of_not_admitted (hreq : ∀ r, req ≠ .execute r) (hg : g.admitted = false) :
    Done d req g :=
  ⟨fun h => absurd (hg.symm.trans h) (by decide), fun r hr => absurd hr (hreq r)⟩

theorem obeys_handleApprove (r : TransactionRequest) :
    (conduct d).Obeys (fun s _ => Done d s.1 s.2) (handleApprove d r) (.approve r, {}) := by
  have hdone (g : Progress) (hg : g.admitted = false) : Done d (.approve r) g :=
    done_of_not_admitted (fun _ => by simp) hg
  refine obeys_authorizeForTransaction rfl (fun o g' hg' ho => ?_) (fun tx owner howned => ?_)
  · rcases ho with rfl | ⟨e, rfl⟩
    · exact hdone g' hg'
    · exact hdone g' hg'
  · refine Monitor.obeys_perform_bind ⟨r, rfl, rfl, rfl, rfl, howned⟩ fun answer => ?_
    match answer with
    | .error e =>
      cases e with
      | databaseInvariant m => exact obeys_sendError fun _ => hdone _ rfl
      | _ => exact obeys_sendError fun _ => hdone _ rfl
    | .ok none => exact obeys_sendError fun _ => hdone _ rfl
    | .ok (some receipt) =>
      refine obeys_send fun response => ?_
      match response with
      | .ok () => exact hdone _ rfl
      | .error e => exact Monitor.obeys_perform_bind trivial fun _ => hdone _ rfl

theorem obeys_handleCancel (r : TransactionRequest) :
    (conduct d).Obeys (fun s _ => Done d s.1 s.2) (handleCancel d r) (.cancel r, {}) := by
  have hdone (g : Progress) (hg : g.admitted = false) : Done d (.cancel r) g :=
    done_of_not_admitted (fun _ => by simp) hg
  refine obeys_authorizeForTransaction rfl (fun o g' hg' ho => ?_) (fun tx owner _ => ?_)
  · rcases ho with rfl | ⟨e, rfl⟩
    · exact hdone g' hg'
    · exact hdone g' hg'
  · refine Monitor.obeys_perform_bind trivial fun answer => ?_
    match answer with
    | .ok true => exact obeys_sendResponse fun _ => hdone _ rfl
    | .ok false => exact obeys_sendError fun _ => hdone _ rfl
    | .error e => exact obeys_sendError fun _ => hdone _ rfl

/-- The captures of a preview only run commands. -/
theorem obeys_captureAutoremove {r : PreviewRequest}
    {f : List (String × Value) × Option String → Handler α}
    (h : ∀ captured g', g'.admitted = g.admitted → (conduct d).Obeys post (f captured) (req, g')) :
    (conduct d).Obeys post (captureAutoremove r >>= f) (req, g) := by
  unfold captureAutoremove
  split_ifs
  · refine Monitor.obeys_bind (Monitor.obeys_bind
      (Monitor.obeys_perform_bind trivial fun out => ?_))
    cases autoremoveSet out with
    | error e => exact h _ _ rfl
    | ok set => exact h _ _ rfl
  · exact h _ g rfl

theorem obeys_captureDeployment {r : PreviewRequest}
    {f : List (String × Value) × Option String → Handler α}
    (h : ∀ captured g', g'.admitted = g.admitted → (conduct d).Obeys post (f captured) (req, g')) :
    (conduct d).Obeys post (captureDeployment d r >>= f) (req, g) := by
  unfold captureDeployment
  split_ifs
  · split
    · rename_i index hindex
      refine Monitor.obeys_bind (Monitor.obeys_bind
        (Monitor.obeys_perform_bind trivial fun out => ?_))
      cases deploymentIdentity d (index % 2 ^ 32) out with
      | error e => exact h _ _ rfl
      | ok identity => exact h _ _ rfl
    · exact h _ g rfl
  · exact h _ g rfl

theorem obeys_handlePreview (r : PreviewRequest) :
    (conduct d).Obeys (fun s _ => Done d s.1 s.2) (handlePreview d r) (.preview r, {}) := by
  have hdone (g : Progress) (hg : g.admitted = false) : Done d (.preview r) g :=
    done_of_not_admitted (fun _ => by simp) hg
  unfold handlePreview
  split
  · exact obeys_sendError fun _ => hdone _ rfl
  split
  · exact obeys_sendError fun _ => hdone _ rfl
  split
  · exact obeys_sendError fun _ => hdone _ rfl
  refine Monitor.obeys_perform_bind trivial fun collected => ?_
  refine obeys_captureAutoremove fun captured g₁ hg₁ => ?_
  refine obeys_captureDeployment fun captured' g₂ hg₂ => ?_
  have hg : g₂.admitted = false := hg₂.trans hg₁
  refine Monitor.obeys_perform_bind ⟨r, rfl, rfl, rfl, rfl⟩ fun answer => ?_
  match answer with
  | .error e => exact obeys_sendError fun _ => hdone _ hg
  | .ok recorded => exact obeys_sendResponse fun _ => hdone _ hg

/-! ### Executing -/

variable {r : ExecuteRequest} {spec : ActionSpec}

/-- How an attempt to persist a status ends: every write failed, or the transaction was found to
have it, or it was written. -/
def Persisted (g : Progress) (target : JobState) (attempts : ℕ) (record : Option TransactionRecord)
    (recorded : Option JobState) (failedWrites : ℕ) : Prop :=
  g.failedWrites + attempts ≤ failedWrites ∨
    (recorded = none ∧ ∃ tx, record = some tx ∧ tx.status = target) ∨ recorded = some target

theorem obeys_retryTerminalStatus {target : JobState}
    {post : Request × Progress → Except StoreError Unit → Prop} (retries : ℕ)
    (hterminal : target.isTerminal = true) (hclaimed : g.claimed = true)
    (hrecorded : g.recorded = none)
    (h : ∀ o record status failedWrites,
      Persisted g target (retries + 1) record status failedWrites →
      post (.execute r,
        { g with record := record, recorded := status, failedWrites := failedWrites }) o) :
    (conduct d).Obeys post (retryTerminalStatus r.transactionId target retries)
      (.execute r, g) := by
  have hallowed : Allowed d (.execute r) g (.updateStatus r.transactionId target) :=
    ⟨r, rfl, rfl, hclaimed, hrecorded, hterminal⟩
  have hfound {tx : TransactionRecord} (htx : tx.status = target) :
      Persisted g target (retries + 1) (some tx) g.recorded (g.failedWrites + 1) :=
    .inr (.inl ⟨hrecorded, tx, rfl, htx⟩)
  -- the induction follows the retries; a failed attempt may have read the record again
  induction retries generalizing g with
  | zero =>
    have hgaveUp (record : Option TransactionRecord) :
        Persisted g target 1 record g.recorded (g.failedWrites + 1) := .inl le_rfl
    refine Monitor.obeys_perform_bind hallowed fun answer => ?_
    match answer with
    | .ok () => exact h _ g.record _ g.failedWrites (.inr (.inr rfl))
    | .error e =>
      refine Monitor.obeys_perform_bind rfl fun answer => ?_
      match answer with
      | .error _ => exact h _ g.record g.recorded _ (hgaveUp _)
      | .ok none => exact h _ g.record g.recorded _ (hgaveUp _)
      | .ok (some record) =>
        simp only
        split_ifs
        · exact h _ (some record) g.recorded _ (hgaveUp _)
        · exact h _ (some record) g.recorded _ (hgaveUp _)
  | succ retries ih =>
    have hretry (record : Option TransactionRecord) : (conduct d).Obeys post
        (retryTerminalStatus r.transactionId target retries)
        (.execute r, { g with record := record, failedWrites := g.failedWrites + 1 }) := by
      refine ih hclaimed hrecorded (fun o record status failedWrites hpersisted => ?_)
        ⟨r, rfl, rfl, hclaimed, hrecorded, hterminal⟩
        fun htx => .inr (.inl ⟨hrecorded, _, rfl, htx⟩)
      refine h o record status failedWrites ?_
      rcases hpersisted with hgaveUp | hdone
      · refine .inl ?_
        simp only at hgaveUp
        omega
      · exact .inr hdone
    refine Monitor.obeys_perform_bind hallowed fun answer => ?_
    match answer with
    | .ok () => exact h _ g.record _ g.failedWrites (.inr (.inr rfl))
    | .error e =>
      refine Monitor.obeys_perform_bind rfl fun answer => ?_
      match answer with
      | .error _ => exact hretry g.record
      | .ok none => exact hretry g.record
      | .ok (some record) =>
        simp only
        split_ifs with htx
        · exact h _ (some record) g.recorded _ (hfound htx)
        · exact hretry (some record)

/-- What is owed for a spent approval is paid when its status was persisted. -/
theorem records_of_persisted {target : JobState} (hterminal : target.isTerminal = true)
    (hpasses : RecheckPasses d r g.preview g.live)
    {record : Option TransactionRecord} {status : Option JobState} {failedWrites : ℕ}
    (h : Persisted g target terminalStatusRetryAttempts record status failedWrites) :
    terminalStatusRetryAttempts ≤ failedWrites ∨
      (status = none ∧ ∃ tx, record = some tx ∧ tx.status.isTerminal = true) ∨
      (status.isSome = true ↔ RecheckPasses d r g.preview g.live) := by
  rcases h with hgaveUp | ⟨hnone, tx, htx, rfl⟩ | rfl
  · exact .inl (le_trans (Nat.le_add_left _ _) hgaveUp)
  · exact .inr (.inl ⟨hnone, tx, htx, hterminal⟩)
  · exact .inr (.inr (iff_of_true rfl hpasses))

/-- The approval is spent: what holds from the claim until the slots are released. -/
structure Spent (d : Daemon) (g : Progress) (r : ExecuteRequest) (spec : ActionSpec) : Prop where
  checked : Checked d g r spec
  admitted : g.admitted = isMutating d r.actionName spec
  claimed : g.claimed = true
  released : g.released = false
  recorded : g.recorded = none
  rolledBack : g.rolledBack = false

theorem Spent.release_allowed (hg : Spent d g r spec) : Allowed d (.execute r) g
    (.release (toClaim d r.actionName spec) (computeRequestHash d r.actionName r.params)) :=
  ⟨r, spec, rfl, hg.checked.spec_eq, rfl, rfl, hg.admitted, hg.released⟩

theorem isTerminal_initialStatus (actionName : String) (spec : ActionSpec)
    (result : ExecutionResult) :
    (initialStatus actionName spec result).1.isTerminal = true := by
  unfold initialStatus
  split
  · split_ifs <;> rfl
  · rfl

theorem failed_of_initialStatus {actionName : String} {result : ExecutionResult}
    (h : (initialStatus actionName spec result).1 = .failed) : failed result = true := by
  unfold initialStatus at h
  unfold failed
  split at h
  · split_ifs at h with hsuccess
    · simp only [hsuccess]
      rfl
  · rfl

/-- A rollback is attempted only after a failure that is known to be over, and the status stays
terminal. -/
theorem obeys_attemptRollbackIfNeeded {jobId summary : String} {result : ExecutionResult}
    {post : Request × Progress → JobState × String × Option String → Prop}
    (hg : Spent d g r spec) (hstarted : g.started = true) (hresult : g.result = some result)
    (h : ∀ o b, o.1.isTerminal = true → post (.execute r, { g with rolledBack := b }) o) :
    (conduct d).Obeys post (attemptRollbackIfNeeded jobId r.actionName spec
      (initialStatus r.actionName spec result).1 summary (mayStillBeRunning result))
      (.execute r, g) := by
  have hterminal := isTerminal_initialStatus r.actionName spec result
  have hkept (summary : String) : post (.execute r, g)
      ((initialStatus r.actionName spec result).1, summary, none) :=
    h _ g.rolledBack hterminal
  unfold attemptRollbackIfNeeded
  split_ifs with hneeded hrunning
  · exact hkept _
  · exact obeys_sendBestEffort (hkept _)
  · simp only [ne_eq, Bool.not_eq_true', not_or, not_not, Bool.not_eq_false] at hneeded hrunning
    split
    · exact hkept _
    · rename_i rollback hrollback
      refine obeys_sendBestEffort (Monitor.obeys_perform_bind
        ⟨r, spec, result, rfl, hg.checked.spec_eq, hneeded.2, hrollback, hg.claimed, hstarted,
          hresult, failed_of_initialStatus hneeded.1, by simpa using hrunning, hg.rolledBack,
          hg.released⟩
        fun answer => ?_)
      match answer with
      | .error e => exact obeys_sendBestEffort (h _ true hterminal)
      | .ok out =>
        simp only
        split_ifs
        · exact obeys_sendBestEffort (h _ true rfl)
        · exact obeys_sendBestEffort (h _ true hterminal)

/-- After the action ended, the slots go back unless it may still be running, and its status is
recorded. -/
theorem obeys_executeFinish {jobId : String} {result : ExecutionResult} (hg : Spent d g r spec)
    (hstarted : g.started = true) (hresult : g.result = some result)
    (hpasses : RecheckPasses d r g.preview g.live) :
    (conduct d).Obeys (fun s _ => Done d s.1 s.2) (executeFinish d r spec jobId result)
      (.execute r, g) := by
  refine obeys_sendBestEffort (Monitor.obeys_bind
    (obeys_attemptRollbackIfNeeded hg hstarted hresult fun o b hterminal => ?_))
  have hfinish (warnings : Except Store.StoreError Unit → List String) (released : Bool)
      (hreleased : released = true ∨ mayStillBeRunning result = true) :
      (conduct d).Obeys (fun s _ => Done d s.1 s.2)
        (updateTerminalStatus r.transactionId o.1 >>= fun written =>
          sendResponse (.jobCompleted jobId
            ⟨jobStateStr o.1, o.2.1, warnings written, jobId, o.1 == .needsReboot, o.2.2,
              r.transactionId⟩))
        (.execute r, { g with rolledBack := b, released := released }) := by
    refine Monitor.obeys_bind (obeys_retryTerminalStatus _ hterminal hg.claimed hg.recorded
      fun _ record status failedWrites hpersisted =>
        obeys_sendResponse fun _ => ⟨fun _ => ?_, ?_⟩)
    · rcases hreleased with hreleased | hrunning
      · exact .inl hreleased
      · exact .inr ⟨result, hresult, hrunning⟩
    · rintro r' hr' -
      obtain rfl := Request.execute.inj hr'
      exact records_of_persisted hterminal hpasses hpersisted
  cases hrunning : mayStillBeRunning result with
  | true => exact hfinish _ g.released (.inr hrunning)
  | false =>
    have hallowed : Allowed d (.execute r) { g with rolledBack := b }
        (.release (toClaim d r.actionName spec) (computeRequestHash d r.actionName r.params)) :=
      hg.release_allowed
    exact Monitor.obeys_perform_bind hallowed fun _ => hfinish _ true (.inl rfl)

theorem obeys_executeRun {jobId : String} (hg : Spent d g r spec) (hstarted : g.started = false)
    (hpasses : RecheckPasses d r g.preview g.live) :
    (conduct d).Obeys (fun s _ => Done d s.1 s.2) (executeRun d r spec jobId) (.execute r, g) := by
  refine obeys_sendBestEffort (obeys_sendBestEffort ?_)
  refine Monitor.obeys_perform_bind
    ⟨r, rfl, hg.checked, hg.admitted, hg.claimed, hstarted, hg.released⟩ fun _ => ?_
  refine Monitor.obeys_perform_bind trivial fun answer => ?_
  obtain ⟨lines, result⟩ := answer
  refine obeys_sendLines ?_
  have hspent : Spent d { g with started := true, result := some result } r spec :=
    ⟨⟨hg.checked.spec_eq, hg.checked.role, hg.checked.owned, hg.checked.record⟩, hg.admitted,
      hg.claimed, hg.released, hg.recorded, hg.rolledBack⟩
  exact obeys_executeFinish hspent rfl rfl hpasses

theorem obeys_executeStart (hg : Spent d g r spec) (hstarted : g.started = false)
    (hpasses : RecheckPasses d r g.preview g.live) :
    (conduct d).Obeys (fun s _ => Done d s.1 s.2) (executeStart d r spec) (.execute r, g) := by
  refine Monitor.obeys_perform_bind trivial fun jobId => obeys_send fun o => ?_
  match o with
  | .ok () => exact obeys_executeRun hg hstarted hpasses
  | .error e =>
    refine Monitor.obeys_perform_bind hg.release_allowed fun _ => ?_
    refine Monitor.obeys_bind (obeys_retryTerminalStatus _ rfl hg.claimed hg.recorded
      fun _ record status failedWrites hpersisted => ⟨fun _ => .inl rfl, ?_⟩)
    rintro r' hr' -
    obtain rfl := Request.execute.inj hr'
    exact records_of_persisted rfl hpasses hpersisted

/-- The re-check of an autoremove lets through exactly what its two answers confirm. -/
theorem obeys_recheckAutoremove {post : Request × Progress → Except Refusal Unit → Prop}
    (hpassed : ∀ preview live, (r.actionName = "AptAutoremove" → ∃ captured answer,
        preview = some (.ok (some captured)) ∧ live = some answer ∧
          judgeAutoremove captured answer = .ok ()) →
      post (.execute r, { g with preview := preview, live := live }) (.ok ()))
    (hrefused : ∀ refusal preview live, r.actionName = "AptAutoremove" →
      (¬ ∃ captured answer, preview = some (.ok (some captured)) ∧ live = some answer ∧
          judgeAutoremove captured answer = .ok ()) →
      post (.execute r, { g with preview := preview, live := live }) (.error refusal)) :
    (conduct d).Obeys post (recheckAutoremove r) (.execute r, g) := by
  unfold recheckAutoremove
  split_ifs with haction
  · refine Monitor.obeys_perform_bind rfl fun preview => ?_
    match preview with
    | .error e => exact hrefused _ (some (.error e)) g.live haction (by simp)
    | .ok none => exact hrefused _ (some (.ok none)) g.live haction (by simp)
    | .ok (some captured) =>
      refine Monitor.obeys_perform_bind trivial fun answer => ?_
      cases hjudge : judgeAutoremove captured answer with
      | ok u =>
        exact hpassed (some (.ok (some captured))) (some answer) fun _ =>
          ⟨captured, answer, rfl, rfl, hjudge⟩
      | error refusal =>
        refine hrefused refusal (some (.ok (some captured))) (some answer) haction ?_
        rintro ⟨captured', answer', hcaptured, hanswer, hok⟩
        simp only [Option.some.injEq, Except.ok.injEq] at hcaptured hanswer
        subst hcaptured hanswer
        rw [hjudge] at hok
        cases hok
  · exact hpassed g.preview g.live fun h => absurd h haction

/-- The same for the deployment at an index. -/
theorem obeys_recheckDeployment {post : Request × Progress → Except Refusal Unit → Prop}
    (hpassed : ∀ preview live, (r.actionName = "PinDeployment" ∨ r.actionName = "UnpinDeployment" →
        ∃ captured index answer, preview = some (.ok (some captured)) ∧
          (r.params.get "index").bind Value.asU64 = some index ∧ live = some answer ∧
          judgeDeployment d index captured answer = .ok ()) →
      (r.actionName = "AptAutoremove" → preview = g.preview ∧ live = g.live) →
      post (.execute r, { g with preview := preview, live := live }) (.ok ()))
    (hrefused : ∀ refusal preview live,
      (r.actionName = "PinDeployment" ∨ r.actionName = "UnpinDeployment") →
      (¬ ∃ captured index answer, preview = some (.ok (some captured)) ∧
          (r.params.get "index").bind Value.asU64 = some index ∧ live = some answer ∧
          judgeDeployment d index captured answer = .ok ()) →
      post (.execute r, { g with preview := preview, live := live }) (.error refusal)) :
    (conduct d).Obeys post (recheckDeployment d r) (.execute r, g) := by
  unfold recheckDeployment
  split_ifs with haction
  · have hother : r.actionName ≠ "AptAutoremove" := by
      rcases haction with h | h <;> rw [h] <;> decide
    refine Monitor.obeys_perform_bind rfl fun preview => ?_
    match preview with
    | .error e => exact hrefused _ (some (.error e)) g.live haction (by simp)
    | .ok none => exact hrefused _ (some (.ok none)) g.live haction (by simp)
    | .ok (some captured) =>
      simp only [approvedPreview]
      cases hindex : (r.params.get "index").bind Value.asU64 with
      | none =>
        refine hrefused _ (some (.ok (some captured))) g.live haction ?_
        rintro ⟨_, index, _, _, h, _⟩
        rw [hindex] at h
        cases h
      | some index =>
        refine Monitor.obeys_perform_bind trivial fun answer => ?_
        cases hjudge : judgeDeployment d index captured answer with
        | ok u =>
          exact hpassed (some (.ok (some captured))) (some answer)
            (fun _ => ⟨captured, index, answer, rfl, hindex, rfl, hjudge⟩) fun h => absurd h hother
        | error refusal =>
          refine hrefused refusal (some (.ok (some captured))) (some answer) haction ?_
          rintro ⟨captured', index', answer', hcaptured, hindex', hanswer, hok⟩
          obtain rfl := Option.some.inj (hindex.symm.trans hindex')
          simp only [Option.some.injEq, Except.ok.injEq] at hcaptured hanswer
          subst hcaptured hanswer
          rw [hjudge] at hok
          cases hok
  · exact hpassed g.preview g.live (fun h => absurd h haction) fun _ => ⟨rfl, rfl⟩

theorem obeys_executeClaimed (hg : Spent d g r spec) (hstarted : g.started = false) :
    (conduct d).Obeys (fun s _ => Done d s.1 s.2) (executeClaimed d r spec) (.execute r, g) := by
  have hspent (preview : Option (Except StoreError (Option PreviewEnvelope)))
      (live : Option (Except String String)) :
      Spent d { g with preview := preview, live := live } r spec :=
    ⟨⟨hg.checked.spec_eq, hg.checked.role, hg.checked.owned, hg.checked.record⟩, hg.admitted,
      hg.claimed, hg.released, hg.recorded, hg.rolledBack⟩
  -- a refusal gives the slots back and records nothing
  have hrefuse (refusal : Refusal) (preview : Option (Except StoreError (Option PreviewEnvelope)))
      (live : Option (Except String String)) (hfails : ¬ RecheckPasses d r preview live) :
      (conduct d).Obeys (fun s _ => Done d s.1 s.2)
        (releaseExclusiveSlots d r spec >>= fun _ => sendError r.requestId refusal.1 refusal.2)
        (.execute r, { g with preview := preview, live := live }) := by
    refine Monitor.obeys_perform_bind (hspent preview live).release_allowed fun _ =>
      obeys_sendError fun _ => ⟨fun _ => .inl rfl, ?_⟩
    rintro r' hr' -
    obtain rfl := Request.execute.inj hr'
    refine .inr (.inr (iff_of_false ?_ hfails))
    change ¬ g.recorded.isSome = true
    simp [hg.recorded]
  refine Monitor.obeys_bind (obeys_recheckAutoremove (fun preview live hauto => ?_)
    fun refusal preview live haction hauto =>
      hrefuse refusal preview live fun h => hauto (h.1 haction))
  refine Monitor.obeys_bind (obeys_recheckDeployment (fun preview' live' hdeployment hsame => ?_)
    fun refusal preview' live' haction hdeployment =>
      hrefuse refusal preview' live' fun h => hdeployment (h.2 haction))
  refine obeys_executeStart (hspent preview' live') hstarted ⟨fun haction => ?_, hdeployment⟩
  obtain ⟨rfl, rfl⟩ := hsame haction
  exact hauto haction

theorem obeys_executeAdmitted (hchecked : Checked d g r spec)
    (hadmitted : g.admitted = isMutating d r.actionName spec)
    (hnew : g.claimed = false ∧ g.released = false ∧ g.recorded = none ∧ g.rolledBack = false ∧
      g.started = false) :
    (conduct d).Obeys (fun s _ => Done d s.1 s.2) (executeAdmitted d r spec) (.execute r, g) := by
  obtain ⟨hclaimed, hreleased, hrecorded, hrolledBack, hstarted⟩ := hnew
  have hrefuse (category message : String) : (conduct d).Obeys (fun s _ => Done d s.1 s.2)
      (releaseExclusiveSlots d r spec >>= fun _ => sendError r.requestId category message)
      (.execute r, g) := by
    refine Monitor.obeys_perform_bind
      ⟨r, spec, rfl, hchecked.spec_eq, rfl, rfl, hadmitted, hreleased⟩ fun _ =>
        obeys_sendError fun _ => ⟨fun _ => .inl rfl, fun _ _ h => ?_⟩
    exact absurd (hclaimed.symm.trans h) (by decide)
  refine Monitor.obeys_perform_bind
    ⟨r, spec, rfl, hchecked, rfl, rfl, hadmitted, hclaimed, hreleased⟩ fun answer => ?_
  match answer with
  | .error e => exact hrefuse _ _
  | .ok false => exact hrefuse _ _
  | .ok true =>
    have hspent : Spent d { g with claimed := true } r spec :=
      ⟨⟨hchecked.spec_eq, hchecked.role, hchecked.owned, hchecked.record⟩, hadmitted, rfl,
        hreleased, hrecorded, hrolledBack⟩
    exact obeys_executeClaimed hspent hstarted

/-- An execution that stops before the gate leaves nothing behind. -/
theorem done_of_not_claimed (hadmitted : g.admitted = false) (hclaimed : g.claimed = false) :
    Done d req g :=
  ⟨fun h => absurd (hadmitted.symm.trans h) (by decide),
    fun _ _ h => absurd (hclaimed.symm.trans h) (by decide)⟩

theorem obeys_handleExecute (r : ExecuteRequest) :
    (conduct d).Obeys (fun s _ => Done d s.1 s.2) (handleExecute d r) (.execute r, {}) := by
  unfold handleExecute
  split
  · exact obeys_sendError fun _ => done_of_not_claimed rfl rfl
  rename_i spec hspec
  refine obeys_callerOwnsTransaction rfl (fun o g' hadmitted hclaimed ho => ?_)
    (fun o owner ho howned => ?_)
  · have hdone : Done d (.execute r) g' := done_of_not_claimed hadmitted hclaimed
    rcases ho with rfl | ⟨m, rfl⟩
    · exact obeys_sendError fun _ => hdone
    · exact obeys_sendError fun _ => hdone
  have hauthorized : (conduct d).Obeys (fun s _ => Done d s.1 s.2) (executeAuthorized d r spec)
      (.execute r, { owner := some owner }) := by
    unfold executeAuthorized
    split
    · exact obeys_sendError fun _ => done_of_not_claimed rfl rfl
    rename_i hrole
    split
    · exact obeys_sendError fun _ => done_of_not_claimed rfl rfl
    refine Monitor.obeys_perform_bind rfl fun answer => ?_
    match answer with
    | .error e => exact obeys_sendError fun _ => done_of_not_claimed rfl rfl
    | .ok none => exact obeys_sendError fun _ => done_of_not_claimed rfl rfl
    | .ok (some priorTx) =>
      simp only
      split_ifs with hdiffers
      · exact obeys_sendError fun _ => done_of_not_claimed rfl rfl
      simp only [ne_eq, not_or, not_not] at hdiffers
      have hchecked (b : Bool) :
          Checked d { record := some priorTx, owner := some owner, admitted := b } r spec :=
        ⟨hspec, by simpa using hrole, howned, ⟨priorTx, rfl, hdiffers.1, hdiffers.2⟩⟩
      unfold executeGate
      split_ifs with hmutating
      · refine Monitor.obeys_perform_bind
          ⟨r, spec, rfl, hchecked false, rfl, rfl, rfl, hmutating, rfl, rfl, rfl⟩ fun answer => ?_
        match answer with
        | some (resource, runningHash) =>
          exact obeys_sendResponse fun _ => done_of_not_claimed rfl rfl
        | none =>
          exact obeys_executeAdmitted (hchecked true) hmutating.symm ⟨rfl, rfl, rfl, rfl, rfl⟩
      · have hmutating : isMutating d r.actionName spec = false := by simpa using hmutating
        exact obeys_executeAdmitted (hchecked false) hmutating.symm ⟨rfl, rfl, rfl, rfl, rfl⟩
  rcases ho with rfl | rfl
  · exact hauthorized
  · exact hauthorized

/-- **Every handler keeps to its conduct.** -/
theorem conducts (d : Daemon) (req : Request) :
    (conduct d).Obeys (fun s _ => Done d s.1 s.2) (d.handle req) (req, {}) := by
  cases req with
  | preview r => exact Monitor.obeys_bind (obeys_handlePreview r)
  | approve r => exact Monitor.obeys_bind (obeys_handleApprove r)
  | revokeApproval r =>
    exact Monitor.obeys_perform_bind trivial fun _ => done_of_not_claimed rfl rfl
  | execute r => exact Monitor.obeys_bind (obeys_handleExecute r)
  | cancel r => exact Monitor.obeys_bind (obeys_handleCancel r)
  | cleanup => exact Monitor.obeys_perform_bind trivial fun _ => done_of_not_claimed rfl rfl

end Obeys

/-! ### Progress of a process -/

/-- The call lets the request through the gate. -/
def DaemonCall.admits : (c : DaemonCall) → c.Answer → Bool
  | .enterGate _ _ _, none => true
  | _, _ => false

/-- The call spends the approval. -/
def DaemonCall.claims : (c : DaemonCall) → c.Answer → Bool
  | .claimApprovedForExecution _ _ _, .ok true => true
  | _, _ => false

/-- The call releases the slots. -/
def DaemonCall.releases : DaemonCall → Bool
  | .release _ _ => true
  | _ => false

/-- The call starts the action. -/
def DaemonCall.starts : DaemonCall → Bool
  | .executeWithProgress _ => true
  | _ => false

/-- The call is an automatic rollback. -/
def DaemonCall.rollsBack : DaemonCall → Bool
  | .execute _ => true
  | _ => false

theorem admits_eq_true {op : DaemonCall} {answer : op.Answer} (h : op.admits answer = true) :
    ∃ own claims requestHash, op = .enterGate own claims requestHash ∧
      answer ≍ (none : Option (ExclusiveResource × String)) := by
  unfold DaemonCall.admits at h
  split at h
  · exact ⟨_, _, _, rfl, .rfl⟩
  · cases h

theorem claims_eq_true {op : DaemonCall} {answer : op.Answer} (h : op.claims answer = true) :
    ∃ t digest executor, op = .claimApprovedForExecution t digest executor ∧
      answer ≍ (.ok true : Except StoreError Bool) := by
  unfold DaemonCall.claims at h
  split at h
  · exact ⟨_, _, _, rfl, .rfl⟩
  · cases h

theorem releases_eq_true {op : DaemonCall} (h : op.releases = true) :
    ∃ claims requestHash, op = .release claims requestHash := by
  unfold DaemonCall.releases at h
  split at h
  · exact ⟨_, _, rfl⟩
  · cases h

theorem starts_eq_true {op : DaemonCall} (h : op.starts = true) :
    ∃ spec, op = .executeWithProgress spec := by
  unfold DaemonCall.starts at h
  split at h
  · exact ⟨_, rfl⟩
  · cases h

theorem rollsBack_eq_true {op : DaemonCall} (h : op.rollsBack = true) :
    ∃ spec, op = .execute spec := by
  unfold DaemonCall.rollsBack at h
  split at h
  · exact ⟨_, rfl⟩
  · cases h

/-- The flags of a progress are raised by one call each, and never lowered. -/
theorem Progress.next_flags (g : Progress) (op : DaemonCall) (answer : op.Answer) :
    (g.next op answer).admitted = (g.admitted || op.admits answer) ∧
      (g.next op answer).claimed = (g.claimed || op.claims answer) ∧
      (g.next op answer).released = (g.released || op.releases) ∧
      (g.next op answer).started = (g.started || op.starts) ∧
      (g.next op answer).rolledBack = (g.rolledBack || op.rollsBack) := by
  unfold Progress.next
  split <;> simp [DaemonCall.admits, DaemonCall.claims, DaemonCall.releases, DaemonCall.starts,
    DaemonCall.rollsBack]
  -- a call that makes no progress is none of these
  cases op <;> simp_all

/-- The result that is known is the one that was last answered. -/
theorem Progress.next_result (g : Progress) (op : DaemonCall) (answer : op.Answer) :
    (g.next op answer).result = g.result ∨ ∃ lines result,
      (⟨op, answer⟩ : Call DaemonCall DaemonCall.Answer) = ⟨.executionResult, (lines, result)⟩ ∧
        (g.next op answer).result = some result := by
  unfold Progress.next
  split
  case h_8 answer => exact .inr ⟨answer.1, answer.2, rfl, rfl⟩
  all_goals exact .inl rfl

/-- The status that counts as written is the one that was last written. -/
theorem Progress.next_recorded (g : Progress) (op : DaemonCall) (answer : op.Answer) :
    ((∀ t status, (⟨op, answer⟩ : Call DaemonCall DaemonCall.Answer) ≠
        ⟨.updateStatus t status, .ok ()⟩) ∧ (g.next op answer).recorded = g.recorded) ∨
      ∃ t status, (⟨op, answer⟩ : Call DaemonCall DaemonCall.Answer) =
        ⟨.updateStatus t status, .ok ()⟩ ∧ (g.next op answer).recorded = some status := by
  by_cases hwrite : ∃ t status, (⟨op, answer⟩ : Call DaemonCall DaemonCall.Answer) =
      ⟨.updateStatus t status, .ok ()⟩
  · obtain ⟨t, status, hlast⟩ := hwrite
    refine .inr ⟨t, status, hlast, ?_⟩
    cases hlast
    rfl
  · refine .inl ⟨fun t status hlast => hwrite ⟨t, status, hlast⟩, ?_⟩
    unfold Progress.next
    split
    case h_11 t status => exact absurd ⟨t, status, rfl⟩ hwrite
    all_goals rfl

/-- The record that is known is the one that was last read. -/
theorem Progress.next_record (g : Progress) (op : DaemonCall) (answer : op.Answer) :
    (g.next op answer).record = g.record ∨ ∃ t record,
      (⟨op, answer⟩ : Call DaemonCall DaemonCall.Answer) = ⟨.get t, .ok (some record)⟩ ∧
        (g.next op answer).record = some record := by
  unfold Progress.next
  split
  case h_1 t record => exact .inr ⟨t, record, rfl, rfl⟩
  all_goals exact .inl rfl

/-- The owner that is known is the one that was last read. -/
theorem Progress.next_owner (g : Progress) (op : DaemonCall) (answer : op.Answer) :
    (g.next op answer).owner = g.owner ∨ ∃ t row,
      (⟨op, answer⟩ : Call DaemonCall DaemonCall.Answer) = ⟨.fetchChainRow t, .ok row⟩ ∧
        (g.next op answer).owner = some row := by
  unfold Progress.next
  split
  case h_2 t row => exact .inr ⟨t, row, rfl, rfl⟩
  all_goals exact .inl rfl

/-- What is true of any progress made by allowed calls. -/
structure Sound (d : Daemon) (req : Request) (g : Progress) : Prop where
  admitted : g.admitted = true → ∃ r spec, req = .execute r ∧
    d.buildActionSpec r.actionName r.params = .ok spec ∧ isMutating d r.actionName spec = true
  claimed : g.claimed = true → ∃ r spec, req = .execute r ∧
    d.buildActionSpec r.actionName r.params = .ok spec ∧
    g.admitted = isMutating d r.actionName spec
  started : g.started = true → g.claimed = true
  rolledBack : g.rolledBack = true → g.claimed = true

theorem Sound.next {d : Daemon} {req : Request} {g : Progress} {op : DaemonCall}
    (hg : Sound d req g) (hallowed : Allowed d req g op) (answer : op.Answer) :
    Sound d req (g.next op answer) := by
  obtain ⟨hadmitted, hclaimed, -, hstarted, hrolledBack⟩ := g.next_flags op answer
  refine ⟨fun h => ?_, fun h => ?_, fun h => ?_, fun h => ?_⟩
  · rw [hadmitted, Bool.or_eq_true] at h
    rcases h with h | h
    · exact hg.admitted h
    · obtain ⟨own, claims, requestHash, rfl, -⟩ := admits_eq_true h
      obtain ⟨r, spec, hreq, hchecked, -, -, -, hmutating, -⟩ := hallowed
      exact ⟨r, spec, hreq, hchecked.spec_eq, hmutating⟩
  · rw [hadmitted]
    rw [hclaimed, Bool.or_eq_true] at h
    rcases h with h | h
    · -- the gate is not entered again after the claim
      obtain ⟨r, spec, hreq, hspec, heq⟩ := hg.claimed h
      refine ⟨r, spec, hreq, hspec, ?_⟩
      cases hadmits : op.admits answer with
      | false => rw [Bool.or_false, heq]
      | true =>
        obtain ⟨own, claims, requestHash, rfl, -⟩ := admits_eq_true hadmits
        obtain ⟨_, _, -, -, -, -, -, -, -, hnot, -⟩ := hallowed
        rw [h] at hnot
        cases hnot
    · obtain ⟨t, digest, executor, rfl, -⟩ := claims_eq_true h
      obtain ⟨r, spec, hreq, hchecked, -, -, heq, -⟩ := hallowed
      exact ⟨r, spec, hreq, hchecked.spec_eq, by rw [← heq]; exact Bool.or_false _⟩
  · rw [hclaimed]
    rw [hstarted, Bool.or_eq_true] at h
    rcases h with h | h
    · rw [hg.started h, Bool.true_or]
    · obtain ⟨spec, rfl⟩ := starts_eq_true h
      obtain ⟨r, -, -, -, hspent, -⟩ := hallowed
      rw [hspent, Bool.true_or]
  · rw [hclaimed]
    rw [hrolledBack, Bool.or_eq_true] at h
    rcases h with h | h
    · rw [hg.rolledBack h, Bool.true_or]
    · obtain ⟨rollback, rfl⟩ := rollsBack_eq_true h
      obtain ⟨r, spec, result, -, -, -, -, hspent, -⟩ := hallowed
      rw [hspent, Bool.true_or]

section Process

variable {d : Daemon}

variable (d) in
/-- How far a process has come. -/
def progress (p : d.system.Process) : Progress := ((conduct d).after (p.request, {}) p.history).2

/-- The automaton never forgets the request. -/
theorem after_fst (req : Request) (g : Progress)
    (calls : List (Call DaemonCall DaemonCall.Answer)) :
    ((conduct d).after (req, g) calls).1 = req := by
  induction calls using List.reverseRecOn with
  | nil => rfl
  | append_singleton calls c ih => rw [(conduct d).after_concat, ih]

theorem after_eq (p : d.system.Process) :
    (conduct d).after (p.request, {}) p.history = (p.request, progress d p) :=
  Prod.ext (after_fst _ _ _) rfl

/-- One more call is one more step of progress. -/
theorem progress_concat (p : d.system.Process) (program : Handler Unit) (op : DaemonCall)
    (answer : op.Answer) :
    progress d ⟨p.request, program, p.history ++ [⟨op, answer⟩]⟩ =
      (progress d p).next op answer := by
  rw [progress, (conduct d).after_concat]
  rfl

/-- The flags are read off the calls that were made. -/
theorem progress_started (p : d.system.Process) :
    (progress d p).started = p.history.any fun call => call.1.starts := by
  obtain ⟨req, program, history⟩ := p
  induction history using List.reverseRecOn with
  | nil => rfl
  | append_singleton calls call ih =>
    have hnext := progress_concat (d := d) ⟨req, program, calls⟩ program call.1 call.2
    rw [hnext, (Progress.next_flags _ _ _).2.2.2.1, ih]
    simp

theorem progress_rolledBack (p : d.system.Process) :
    (progress d p).rolledBack = p.history.any fun call => call.1.rollsBack := by
  obtain ⟨req, program, history⟩ := p
  induction history using List.reverseRecOn with
  | nil => rfl
  | append_singleton calls call ih =>
    have hnext := progress_concat (d := d) ⟨req, program, calls⟩ program call.1 call.2
    rw [hnext, (Progress.next_flags _ _ _).2.2.2.2, ih]
    simp

/-- A known result was answered. -/
theorem mem_history_of_result {p : d.system.Process} {result : ExecutionResult}
    (h : (progress d p).result = some result) :
    ∃ lines, (⟨.executionResult, (lines, result)⟩ : Call DaemonCall DaemonCall.Answer) ∈
      p.history := by
  obtain ⟨req, program, history⟩ := p
  induction history using List.reverseRecOn with
  | nil => cases h
  | append_singleton calls call ih =>
    have hnext := progress_concat (d := d) ⟨req, program, calls⟩ program call.1 call.2
    rw [hnext] at h
    rcases Progress.next_result _ call.1 call.2 with hold | ⟨lines, result', hlast, hresult⟩
    · obtain ⟨lines, hmem⟩ := ih (hold ▸ h)
      exact ⟨lines, List.mem_append_left _ hmem⟩
    · obtain rfl := Option.some.inj (hresult.symm.trans h)
      exact ⟨lines, by rw [← hlast]; exact List.mem_append_right _ (List.mem_singleton.mpr rfl)⟩

/-- **The invariant rule of the daemon.** What holds at the start, and survives arrivals and the
calls that the conduct allows, holds in every run along `R`. -/
theorem daemon_induction {R : d.system.Config → d.system.Event → Prop}
    {P : d.system.Config → Prop} (hinit : P ⟨.initial, []⟩)
    (harrive : ∀ c req, P c → P (c.arrive req))
    (hcall : ∀ (c : d.system.Config) pid choice p op k, P c → R c (.act pid choice) →
      c.procs[pid]? = some p → p.program = .call op k → Allowed d p.request (progress d p) op →
      P (c.call pid choice p op k))
    (events : List d.system.Event) (halong : System.Along R events) : P (d.system.run events) := by
  refine System.run_induction (conduct d) (fun req => (req, {})) (conducts d) hinit
    harrive (fun c pid choice p op k hc hR hp hprog hallowed => ?_) events halong
  rw [after_eq] at hallowed
  exact hcall c pid choice p op k hc hR hp hprog hallowed

/-- What holds when a process has returned. -/
theorem done_of_returned (events : List d.system.Event) {i : ℕ} {p : d.system.Process}
    (hp : (d.system.run events).procs[i]? = some p) (hdone : p.program = .pure ()) :
    Done d p.request (progress d p) := by
  have hobeys := System.obeys_run (conduct d) (fun req => (req, {})) (conducts d) events i p hp
  rw [hdone, after_eq] at hobeys
  exact hobeys

/-- What a process is about to do is allowed. -/
theorem allowed_of_next (events : List d.system.Event) {i : ℕ} {p : d.system.Process}
    (hp : (d.system.run events).procs[i]? = some p) {op : DaemonCall} {k : op.Answer → Handler Unit}
    (hprog : p.program = .call op k) : Allowed d p.request (progress d p) op := by
  have hobeys := System.obeys_run (conduct d) (fun req => (req, {})) (conducts d) events i p hp
  rw [hprog, after_eq] at hobeys
  exact hobeys.1

/-- Every process is sound. -/
def AllSound (c : d.system.Config) : Prop :=
  ∀ (i : ℕ) (p : d.system.Process), c.procs[i]? = some p → Sound d p.request (progress d p)

variable {c : d.system.Config}

theorem AllSound.arrive (hc : AllSound c) (req : Request) : AllSound (c.arrive req) := by
  intro i p hp
  rcases System.getElem?_arrive hp with hold | ⟨-, rfl⟩
  · exact hc i p hold
  · exact ⟨fun h => (by cases h), fun h => (by cases h), fun h => (by cases h),
      fun h => (by cases h)⟩

theorem AllSound.call (hc : AllSound c) {pid : ℕ} {choice : Choice} {p : d.system.Process}
    {op : DaemonCall} {k : op.Answer → Handler Unit} (hp : c.procs[pid]? = some p)
    (hallowed : Allowed d p.request (progress d p) op) : AllSound (c.call pid choice p op k) := by
  intro i q hq
  by_cases hi : i = pid
  · subst hi
    rw [System.getElem?_call_self hp] at hq
    obtain rfl := Option.some.inj hq
    rw [progress_concat]
    exact (hc i p hp).next hallowed _
  · rw [System.getElem?_call_of_ne hi] at hq
    exact hc i q hq

theorem allSound_initial : AllSound (⟨.initial, []⟩ : d.system.Config) := by
  intro i p hp
  simp at hp

theorem allSound_run (events : List d.system.Event) : AllSound (d.system.run events) :=
  daemon_induction (R := fun _ _ => True) allSound_initial (fun _ req hc => hc.arrive req)
    (fun _ _ _ _ _ _ hc _ hp _ hallowed => hc.call hp hallowed) events fun _ _ _ _ => trivial

end Process

end Sysknife.Dispatcher
