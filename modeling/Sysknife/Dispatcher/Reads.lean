import Sysknife.Actions.Platform
import Sysknife.Dispatcher.History
import Sysknife.Dispatcher.Previews
import Sysknife.Lib.Hosting
import Sysknife.Transport.Framing

/-!
# Requests that only read

A connection makes calls of its own (`ConnectionCall`) and runs the handlers of the daemon: it is a
host of the daemon's programs (`Serving`). Its own calls receive frames, authenticate the peer, and
answer the requests that leave the store as it is: `handle_query_state`,
`handle_approval_details`, `handle_query_action`, `handle_query_history` and `handle_describe`.

Such a request may make calls of the daemon too (`consult`), of those that leave the world as it is
(`DaemonCall.Passive`).
-/

namespace Sysknife.Dispatcher

open Store

/-! ### The calls of a connection -/

/-- What a wait for a frame comes to. -/
inductive Received
  | frame (raw : Bytes)
  | framing (e : Transport.FramingError)
  | timedOut

/-- The responses to requests that only read. -/
inductive ReadResponse
  | stateResponse (requestId : String) (state : Value) (hostDistro : Option DistroId)
  | approvalDetailsResponse (requestId transactionId actionName : String)
    (preview : PreviewEnvelope)
  | queryActionResponse (requestId actionName output : String)
  | historyResponse (requestId : String) (entries : List JobHistoryEntry)
  | describeResponse (requestId command riskLevel : String) (rebootRequired : Bool)

/-- One call of a connection's own; `δ` are instants. -/
inductive ConnectionCall (δ : Type)
  /-- Wait for a frame, for so many seconds. -/
  | recv (seconds : ℕ)
  | reply (response : ReadResponse)
  | listTransactions (limit : UInt32) (statusFilter actionFilter : Option String)
    (since : Option (HistorySince δ))
  | listHistory (limit : UInt32) (statusFilter actionFilter : Option String)
    (since : Option (HistorySince δ))
  /-- The permission bits of the token file. -/
  | tokenMode
  /-- The text of the token file. -/
  | readToken
  /-- `SYSKNIFE_TOKEN_ROLE` -/
  | tokenRoleVar
  /-- Wait for the next round of the sweep. -/
  | tick
  /-- A call that the handlers of the daemon make too. -/
  | daemon (c : DaemonCall)

/-- What a call is answered with. -/
abbrev ConnectionCall.Answer {δ : Type} : ConnectionCall δ → Type
  | .recv _ => Received
  | .reply _ => Outcome
  | .listTransactions _ _ _ _ => Except StoreError (List TransactionRecord)
  | .listHistory _ _ _ _ => Except StoreError (List JobHistoryEntry)
  | .tokenMode => Except String ℕ
  | .readToken => Except String String
  | .tokenRoleVar => Option String
  | .tick => Unit
  | .daemon c => c.Answer

/-- A program of a connection. -/
abbrev Serving (δ α : Type) : Type :=
  HostProg (@ConnectionCall.Answer δ) DaemonCall.Answer α

/-- One call of a connection, its own or one of a handler it ran, with its answer. -/
abbrev ConnectionStep (δ : Type) : Type :=
  Call (HostCall (ConnectionCall δ) DaemonCall)
    (HostCall.Answer (@ConnectionCall.Answer δ) DaemonCall.Answer)

/-- The calls of a connection. -/
abbrev ConnectionHistory (δ : Type) : Type := List (ConnectionStep δ)

section Serving

variable {δ α : Type}

/-- Make one call. -/
abbrev ask (c : ConnectionCall δ) : Serving δ c.Answer := Prog.own c

/-- Make the calls of a handler on the connection's own account. -/
def consult : Handler α → Serving δ α
  | .pure a => .pure a
  | .call c k => .call (.own (.daemon c)) fun r => consult (k r)

end Serving

/-- A daemon that listens: what its connections need beside it. -/
structure Listener (δ : Type) where
  daemon : Daemon
  /-- The catalogue, for the parameters of `ListJobHistory`. -/
  catalogue : Catalogue
  history : HistoryEnv δ
  hostDistro : Option DistroId

namespace Listener

variable {δ : Type} (l : Listener δ)

/-! ### The handlers -/

def handleQueryState (requestId : String) : Serving δ Outcome := do
  match ← ask (.daemon .collectState) with
  | .error e => consult (sendError requestId "state_collection_failed" e)
  | .ok state => ask (.reply (.stateResponse requestId state l.hostDistro))

/-- The preview behind a transaction, if it waits for approval. -/
def answerApprovalDetails (r : TransactionRequest) : Serving δ Outcome := do
  let refuse (category message : String) := consult (sendError r.requestId category message)
  match ← ask (.daemon (.get r.transactionId)) with
  | .error e =>
    refuse "transient_infrastructure_failure" ("failed to load transaction: " ++ e.message)
  | .ok none => refuse "stale_approval" "transaction is missing or no longer queued"
  | .ok (some transaction) =>
    if transaction.status ≠ .queued then
      refuse "stale_approval" "transaction is missing or no longer queued"
    else if !l.daemon.policy.actionAllowed r.caller.role transaction.actionName then
      refuse "authorization_failure"
        (authorizationFailureMessage l.daemon r.caller.role transaction.actionName)
    else
      match ← ask (.daemon (.getPreview r.transactionId)) with
      | .error e =>
        refuse "transient_infrastructure_failure" ("failed to load preview: " ++ e.message)
      | .ok none => refuse "stale_approval" "transaction has no persisted preview"
      | .ok (some preview) =>
        ask (.reply (.approvalDetailsResponse r.requestId r.transactionId transaction.actionName
          preview))

/-- Show the account a transaction belongs to what it is about to approve. -/
def handleApprovalDetails (r : TransactionRequest) : Serving δ Outcome := do
  match ← consult (callerOwnsTransaction r.caller r.transactionId) with
  | .notOwned =>
    consult (sendError r.requestId "authorization_failure"
      (notYourTransactionMessage r.transactionId))
  | .cannotEstablish message => consult (sendError r.requestId "authorization_failure" message)
  | .owned | .noSuchTransaction => l.answerApprovalDetails r

def handleQueryHistory (requestId : String) (r : HistoryRequest) : Serving δ Outcome :=
  match historyGate l.daemon with
  | .error refusal => consult (sendError requestId refusal.1 refusal.2)
  | .ok () =>
    match resolveHistorySince l.history r.sinceHours r.since with
    | .error message => consult (sendError requestId "validation_failure" message)
    | .ok since => do
      match ← ask (.listHistory (r.limit.getD defaultHistoryLimit) r.statusFilter r.actionFilter
          since) with
      | .error e =>
        consult (sendError requestId "execution_failure"
          ("failed to query transaction history: " ++ e.message))
      | .ok entries => ask (.reply (.historyResponse requestId entries))

/-- The action `ListJobHistory`, answered from the daemon's own store. -/
def queryJobHistory (requestId : String) (params : Value) : Serving δ Outcome :=
  match readJobHistoryParams l.catalogue params with
  | .error refusal => consult (sendError requestId refusal.1 refusal.2)
  | .ok r =>
    match resolveHistorySince l.history r.sinceHours r.since with
    | .error message => consult (sendError requestId "validation_failure" message)
    | .ok since => do
      match ← ask (.listTransactions (r.limit.getD defaultHistoryLimit) r.statusFilter
          r.actionFilter since) with
      | .error e =>
        consult (sendError requestId "execution_failure"
          ("failed to query transaction log: " ++ e.message))
      | .ok records =>
        ask (.reply (.queryActionResponse requestId "ListJobHistory" (jobHistoryOutput r records)))

/-- `systemctl status` tells the state of a unit by its exit code. -/
def isInformationalExit (actionName : String) (exitCode : ℤ) : Bool :=
  actionName == "GetServiceStatus" && decide (1 ≤ exitCode) && decide (exitCode ≤ 4)

/-- What is said of an action that failed. -/
def exitMessage (actionName : String) (out : ExecutionOutput) : String :=
  actionName ++ " failed with exit code " ++ toString out.exitCode ++
    if (trim out.stderr).isEmpty then "" else ": " ++ trim out.stderr

/-- The text of an action's output. -/
def outputText (out : ExecutionOutput) : String :=
  if out.stderr.isEmpty then out.stdout else out.stdout ++ "\n[stderr]\n" ++ out.stderr

/-- Execute an action that reads, without preview and approval. -/
def handleQueryAction (requestId actionName : String) (params : Value) : Serving δ Outcome :=
  match queryActionGates l.daemon actionName with
  | .error refusal => consult (sendError requestId refusal.1 refusal.2)
  | .ok () =>
    if actionName = "ListJobHistory" then l.queryJobHistory requestId params
    else
      match l.daemon.buildActionSpec actionName params with
      | .error e => consult (sendError requestId "validation_failure" e.message)
      | .ok spec => do
        match ← ask (.daemon (.execute spec)) with
        | .error e => consult (sendError requestId "execution_failure" e.message)
        | .ok out =>
          if !out.isSuccess && !isInformationalExit actionName out.exitCode then
            consult (sendError requestId "execution_failure" (exitMessage actionName out))
          else ask (.reply (.queryActionResponse requestId actionName (outputText out)))

/-- The command an action would run. -/
def handleDescribe (caller : CallerAttribution) (requestId actionName : String) (params : Value) :
    Serving δ Outcome :=
  if (l.daemon.policy.minRoleForAction actionName).isNone then
    consult (sendError requestId "validation_failure" ("unknown action: " ++ actionName))
  else if !l.daemon.policy.actionAllowed caller.role actionName then
    consult (sendError requestId "authorization_failure"
      (authorizationFailureMessage l.daemon caller.role actionName))
  else
    match l.daemon.validateActionPlatform actionName with
    | .error message => consult (sendError requestId "unsupported_platform" message)
    | .ok () =>
      if actionName = "ListJobHistory" then
        ask (.reply (.describeResponse requestId "query daemon job history (SQLite)" "low" false))
      else
        match l.daemon.buildActionSpec actionName params with
        | .error e =>
          consult (sendError requestId "validation_failure"
            ("unknown action: " ++ actionName ++ " (" ++ e.message ++ ")"))
        | .ok spec =>
          ask (.reply (.describeResponse requestId
            (describedCommand actionName params spec.mechanism) spec.riskLevel.asStr
            spec.rebootRequired))

end Listener

/-! ### What a read does not do -/

/-- A call of the daemon that sends, or looks at the world. -/
def DaemonCall.Looks : DaemonCall → Prop
  | .send _ | .collectState | .get _ | .getPreview _ | .fetchChainRow _ => True
  | _ => False

/-- A call of a connection's own that leaves the world as it is, and executes nothing. -/
def ConnectionCall.Looks {δ : Type} : ConnectionCall δ → Prop
  | .daemon c => c.Looks
  | _ => True

/-- What is consulted leaves the world as it is. -/
theorem World.serve_of_looks (env : StoreEnv) (w : World) (choice : Choice) {c : DaemonCall}
    (h : c.Looks) : (w.serve env choice c).2 = w := by
  have hread {α : Type} (query : Tables → α) : (w.read choice query).2 = w := by
    unfold World.read
    cases choice.fault with
    | none => rfl
    | some e => rfl
  cases c with
  | get t => exact hread _
  | getPreview t => exact hread _
  | fetchChainRow t => exact hread _
  | send response => rfl
  | collectState => rfl
  | _ => cases h

section Looks

variable {δ α β : Type}

/-- The program looks at the world and answers, and does nothing else. -/
def OnlyLooks (p : Serving δ α) : Prop := p.Only fun op => ∃ o, op = .own o ∧ o.Looks

theorem onlyLooks_pure (a : α) : OnlyLooks (pure a : Serving δ α) := trivial

theorem onlyLooks_ask {c : ConnectionCall δ} (hc : c.Looks) : OnlyLooks (ask c) :=
  Prog.only_perform ⟨c, rfl, hc⟩

theorem onlyLooks_ask_bind {c : ConnectionCall δ} {f : c.Answer → Serving δ α} (hc : c.Looks)
    (hf : ∀ r, OnlyLooks (f r)) : OnlyLooks (ask c >>= f) :=
  Prog.only_perform_bind ⟨c, rfl, hc⟩ hf

theorem onlyLooks_bind {p : Serving δ α} {f : α → Serving δ β} (hp : OnlyLooks p)
    (hf : ∀ a, OnlyLooks (f a)) : OnlyLooks (p >>= f) :=
  Prog.Only.bind hp hf

theorem onlyLooks_consult {p : Handler α} (hp : p.Only DaemonCall.Looks) :
    OnlyLooks (consult p : Serving δ α) := by
  induction p with
  | pure a => trivial
  | call op k ih => exact ⟨⟨_, rfl, hp.1⟩, fun r => ih r (hp.2 r)⟩

theorem onlyLooks_sendError (requestId category message : String) :
    OnlyLooks (consult (sendError requestId category message) : Serving δ Outcome) :=
  onlyLooks_consult (Prog.only_perform trivial)

theorem only_callerOwnsTransaction (caller : CallerAttribution) (t : String) :
    (callerOwnsTransaction caller t).Only DaemonCall.Looks := by
  unfold callerOwnsTransaction
  split_ifs
  · trivial
  · refine Prog.only_perform_bind trivial fun answer => ?_
    rcases answer with err | _ | row
    · trivial
    · trivial
    · simp only
      split
      · trivial
      · split <;> trivial

/-- A connection's own calls are quiet. -/
theorem OnlyLooks.quiet {p : Serving δ α} (hp : OnlyLooks p) : p.Quiet := by
  induction p with
  | pure a => trivial
  | call op k ih =>
    obtain ⟨⟨o, rfl, -⟩, hk⟩ := hp
    exact ⟨⟨o, rfl⟩, fun r => ih r (hk r)⟩

end Looks

namespace Listener

variable {δ : Type} (l : Listener δ)

theorem onlyLooks_handleQueryState (requestId : String) :
    OnlyLooks (l.handleQueryState requestId) := by
  refine onlyLooks_ask_bind trivial fun answer => ?_
  cases answer with
  | error e => exact onlyLooks_sendError ..
  | ok state => exact onlyLooks_ask trivial

theorem onlyLooks_answerApprovalDetails (r : TransactionRequest) :
    OnlyLooks (l.answerApprovalDetails r) := by
  refine onlyLooks_ask_bind trivial fun answer => ?_
  rcases answer with e | _ | transaction
  · exact onlyLooks_sendError ..
  · exact onlyLooks_sendError ..
  simp only
  split_ifs
  · exact onlyLooks_sendError ..
  · exact onlyLooks_sendError ..
  refine onlyLooks_ask_bind trivial fun answer => ?_
  rcases answer with e | _ | preview
  · exact onlyLooks_sendError ..
  · exact onlyLooks_sendError ..
  · exact onlyLooks_ask trivial

theorem onlyLooks_handleApprovalDetails (r : TransactionRequest) :
    OnlyLooks (l.handleApprovalDetails r) := by
  refine onlyLooks_bind (onlyLooks_consult (only_callerOwnsTransaction ..)) fun ownership => ?_
  cases ownership with
  | owned => exact l.onlyLooks_answerApprovalDetails r
  | noSuchTransaction => exact l.onlyLooks_answerApprovalDetails r
  | notOwned => exact onlyLooks_sendError ..
  | cannotEstablish message => exact onlyLooks_sendError ..

theorem onlyLooks_handleQueryHistory (requestId : String) (r : HistoryRequest) :
    OnlyLooks (l.handleQueryHistory requestId r) := by
  unfold handleQueryHistory
  split
  · exact onlyLooks_sendError ..
  split
  · exact onlyLooks_sendError ..
  refine onlyLooks_ask_bind trivial fun answer => ?_
  cases answer with
  | error e => exact onlyLooks_sendError ..
  | ok entries => exact onlyLooks_ask trivial

theorem onlyLooks_queryJobHistory (requestId : String) (params : Value) :
    OnlyLooks (l.queryJobHistory requestId params) := by
  unfold queryJobHistory
  split
  · exact onlyLooks_sendError ..
  split
  · exact onlyLooks_sendError ..
  refine onlyLooks_ask_bind trivial fun answer => ?_
  cases answer with
  | error e => exact onlyLooks_sendError ..
  | ok records => exact onlyLooks_ask trivial

theorem onlyLooks_handleDescribe (caller : CallerAttribution) (requestId actionName : String)
    (params : Value) : OnlyLooks (l.handleDescribe caller requestId actionName params) := by
  unfold handleDescribe
  split
  · exact onlyLooks_sendError ..
  split
  · exact onlyLooks_sendError ..
  split
  · exact onlyLooks_sendError ..
  split
  · exact onlyLooks_ask trivial
  split
  · exact onlyLooks_sendError ..
  · exact onlyLooks_ask trivial

/-- An action that is executed without preview and approval only reads: every caller may ask for
it, it is not known to change the host, and it runs on the host. -/
structure ReadOnlyAction (actionName : String) (params : Value) (spec : ActionSpec) : Prop where
  role : l.daemon.policy.minRoleForAction actionName = some .observer
  reads : actionName ∉ observerMutatingActions
  platform : l.daemon.validateActionPlatform actionName = .ok ()
  spec_eq : l.daemon.buildActionSpec actionName params = .ok spec

theorem queryActionGates_eq_ok {d : Daemon} {actionName : String}
    (h : queryActionGates d actionName = .ok ()) :
    d.policy.minRoleForAction actionName = some .observer ∧
      actionName ∉ observerMutatingActions ∧ d.validateActionPlatform actionName = .ok () := by
  unfold queryActionGates at h
  split at h
  · cases h
  · rename_i hrole
    rw [ite_error_eq_ok_iff] at h
    exact ⟨hrole, h.1, mapError_eq_ok_iff.mp h.2⟩
  · cases h

/-- The action of a query only reads, and what comes before and after it only looks. -/
theorem handleQueryAction_cases (requestId actionName : String) (params : Value) :
    OnlyLooks (l.handleQueryAction requestId actionName params) ∨
    ∃ spec f, l.ReadOnlyAction actionName params spec ∧ (∀ result, OnlyLooks (f result)) ∧
      l.handleQueryAction requestId actionName params = ask (.daemon (.execute spec)) >>= f := by
  unfold handleQueryAction
  split
  · exact .inl (onlyLooks_sendError ..)
  rename_i hgates
  obtain ⟨hrole, hreads, hplatform⟩ := queryActionGates_eq_ok hgates
  split_ifs
  · exact .inl (l.onlyLooks_queryJobHistory requestId params)
  split
  · exact .inl (onlyLooks_sendError ..)
  rename_i spec hspec
  refine .inr ⟨spec, _, ⟨hrole, hreads, hplatform, hspec⟩, fun result => ?_, rfl⟩
  cases result with
  | error e => exact onlyLooks_sendError ..
  | ok out =>
    simp only
    split_ifs
    · exact onlyLooks_sendError ..
    · exact onlyLooks_ask trivial

end Listener

end Sysknife.Dispatcher
