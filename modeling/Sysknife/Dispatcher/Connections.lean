import Sysknife.Dispatcher.Reads

/-!
# Connections

What the daemon does for a connection (`Endpoint.connectionHandler`): a vsock peer has to present
the token of the token file first (`authenticateVsockToken`), a peer of the Unix socket is known to
the kernel; then requests are read and served one after the other (`dispatchLoop`), for the caller
that was made out at the start. Any number of connections are served at once, beside the sweep of
stale transactions, and share the store and the exclusion slots.

Connections, and the sweep, are hosts of the daemon's handlers (`Endpoint.hosting`). A request of
theirs is begun when it was read off a frame (`Endpoint.Begins`), and run to its end
(`serves_perform`); what they call besides is `Permitted`.
-/

namespace Sysknife.Dispatcher

open Store

/-! ### Requests -/

/-- A request as it is read off a frame. -/
inductive DaemonRequest
  | queryState (requestId : String)
  | preview (requestId actionName : String) (params : Value) (unattended : Bool)
  | approve (requestId transactionId : String)
  | approvalDetails (requestId transactionId : String)
  | execute (requestId transactionId actionName : String) (params : Value)
    (approvalReceipt : String)
  | cancel (requestId transactionId : String)
  | queryAction (requestId actionName : String) (params : Value)
  | queryHistory (requestId : String) (r : HistoryRequest)
  | describe (requestId actionName : String) (params : Value)

/-- The request of a caller that a handler of the daemon serves; the others only read. -/
def DaemonRequest.served (caller : CallerAttribution) : DaemonRequest → Option Request
  | .preview requestId actionName params unattended =>
    some (.preview ⟨caller, requestId, actionName, params, unattended⟩)
  | .approve requestId transactionId => some (.approve ⟨caller, requestId, transactionId⟩)
  | .execute requestId transactionId actionName params approvalReceipt =>
    some (.execute ⟨caller, requestId, transactionId, actionName, params, approvalReceipt⟩)
  | .cancel requestId transactionId => some (.cancel ⟨caller, requestId, transactionId⟩)
  | _ => none

/-- A listening daemon, with what it takes from `serde_json` to read frames. -/
structure Endpoint (δ : Type) extends Listener δ where
  readJson : Bytes → Except String Value
  readRequest : Value → Except String DaemonRequest
  /-- Type and token of an authentication frame. -/
  readAuthFrame : Bytes → Except String (String × String)

/-! ### Authentication -/

/-- Seconds a vsock peer has to authenticate. -/
def vsockAuthFrameTimeoutSecs : ℕ := 10

/-- The role of those who hold the token. -/
def tokenRole (var : Option String) : CallerRole :=
  match (trim (var.getD "")).toLower with
  | "observer" => .observer
  | "admin" => .admin
  | "boot" => .boot
  | "dev" | "" => .dev
  | _ => .observer

section Authentication

variable {δ : Type}

/-- Is the token the one in the token file, which nobody else may read? -/
def validateTokenAgainstFile (presentedToken : String) : Serving δ (Option CallerRole) :=
  if presentedToken = "" then return none
  else do
    match ← ask .tokenMode with
    | .error _ => return none
    | .ok mode =>
      if mode &&& 0o077 ≠ 0 then return none
      else
        match ← ask .readToken with
        | .error _ => return none
        | .ok stored =>
          if trim stored = "" ∨ trim stored ≠ presentedToken then return none
          else
            let var ← ask .tokenRoleVar
            return some (tokenRole var)

end Authentication

namespace Endpoint

variable {δ : Type} (e : Endpoint δ)

/-- Receive the first frame and validate the token in it. -/
def authenticateVsockToken : Serving δ (Option CallerRole) := do
  match ← ask (.recv vsockAuthFrameTimeoutSecs) with
  | .timedOut | .framing _ => return none
  | .frame raw =>
    match e.readAuthFrame raw with
    | .error _ => return none
    | .ok (msgType, token) =>
      if msgType ≠ "auth" then return none else validateTokenAgainstFile token

/-! ### The loop -/

/-- Run one handler. How it ended is only logged. -/
def handleRequest (caller : CallerAttribution) : DaemonRequest → Serving δ Unit
  | .queryState requestId => do let _ ← e.handleQueryState requestId
  | .preview requestId actionName params unattended =>
    (e.daemon.handle (.preview ⟨caller, requestId, actionName, params, unattended⟩)).hosted
  | .approve requestId transactionId =>
    (e.daemon.handle (.approve ⟨caller, requestId, transactionId⟩)).hosted
  | .approvalDetails requestId transactionId => do
    let _ ← e.handleApprovalDetails ⟨caller, requestId, transactionId⟩
  | .execute requestId transactionId actionName params approvalReceipt =>
    (e.daemon.handle (.execute
      ⟨caller, requestId, transactionId, actionName, params, approvalReceipt⟩)).hosted
  | .cancel requestId transactionId =>
    (e.daemon.handle (.cancel ⟨caller, requestId, transactionId⟩)).hosted
  | .queryAction requestId actionName params => do
    let _ ← e.handleQueryAction requestId actionName params
  | .queryHistory requestId r => do let _ ← e.handleQueryHistory requestId r
  | .describe requestId actionName params => do
    let _ ← e.handleDescribe caller requestId actionName params

/-- Seconds to wait for the next frame: a peer that has not asked for anything yet gets less. -/
def readDeadline (requestsServed : ℕ) : ℕ := if requestsServed = 0 then 30 else 15 * 60

/-- Serve the request in a frame, and go on unless the frame is no JSON. -/
def handleFrame (caller : CallerAttribution) (raw : Bytes) (next : Serving δ Unit) :
    Serving δ Unit :=
  match e.readJson raw with
  | .error _ => return ()
  | .ok msg =>
    match e.readRequest msg with
    | .error m => do
      let _ ← consult (sendError "" "validation_failure" ("unknown message type: " ++ m))
      next
    | .ok request => do
      e.handleRequest caller request
      next

/-- Serve requests until the peer is gone, which it is after so many frames at most. -/
def dispatchLoop (caller : CallerAttribution) (requestsServed : ℕ) : ℕ → Serving δ Unit
  | 0 => return ()
  | frames + 1 => do
    match ← ask (.recv (readDeadline requestsServed)) with
    | .timedOut | .framing _ => return ()
    | .frame raw => e.handleFrame caller raw (dispatchLoop caller (requestsServed + 1) frames)

end Endpoint

/-- Who is at the other end of a connection. -/
inductive Peer
  /-- A peer of the Unix socket, as it was resolved when the connection was accepted. -/
  | unix (caller : CallerAttribution)
  | vsock

/-- What the daemon is busy with. A peer sends finitely many frames, and the sweep of stale
transactions has run finitely often, so a bound on them is no restriction. -/
inductive Activity
  | connection (peer : Peer) (frames : ℕ)
  | sweep (rounds : ℕ)

/-- What the outside decides at a call of a connection. -/
structure ConnectionChoice where
  daemon : Choice
  received : Received
  tokenMode : Except String ℕ
  token : Except String String
  tokenRole : Option String

/-- The columns of a transaction, as they are stored. -/
def historyRow (row : TransactionRow) : HistoryRow where
  seq := row.seq
  transactionId := row.transactionId
  requestId := row.requestId
  requestHash := row.requestHash
  actionName := row.actionName
  riskLevel := "\"" ++ row.riskLevel.asStr ++ "\""
  status := serializeState row.status
  approvalId := row.approvalId
  summary := row.summary
  warningsJson := row.warningsJson
  createdAt := row.createdAt

namespace Endpoint

variable {δ : Type} (e : Endpoint δ)

/-- Serve one connection. -/
def connectionHandler (frames : ℕ) : Peer → Serving δ Unit
  | .unix caller => e.dispatchLoop caller 0 frames
  | .vsock => do
    match ← e.authenticateVsockToken with
    | none => return ()
    | some role => e.dispatchLoop (.fromVsockToken role) 0 frames

/-- Cancel stale transactions, from time to time. -/
def staleSweep : ℕ → Serving δ Unit
  | 0 => return ()
  | rounds + 1 => do
    ask .tick
    (e.daemon.handle .cleanup).hosted
    staleSweep rounds

def perform : Activity → Serving δ Unit
  | .connection peer frames => e.connectionHandler frames peer
  | .sweep rounds => e.staleSweep rounds

/-- The answer to a call of a connection's own. -/
def answer (w : World) (choice : ConnectionChoice) : (c : ConnectionCall δ) → c.Answer
  | .recv _ => choice.received
  | .reply _ => choice.daemon.sent
  | .listTransactions limit statusFilter actionFilter since =>
    match choice.daemon.fault with
    | some err => .error err
    | none => listTransactions e.history (w.store.transactions.map historyRow) limit statusFilter
        actionFilter since
  | .listHistory limit statusFilter actionFilter since =>
    match choice.daemon.fault with
    | some err => .error err
    | none => listHistory e.history (w.store.transactions.map historyRow) limit statusFilter
        actionFilter since
  | .tokenMode => choice.tokenMode
  | .readToken => choice.token
  | .tokenRoleVar => choice.tokenRole
  | .tick => ()
  | .daemon c => (w.serve e.daemon.store choice.daemon c).1

/-- The caller was made out: it is the peer of the socket, or the first calls of the connection
are an authentication that succeeded. -/
def Identified (peer : Peer) (history : ConnectionHistory δ) (caller : CallerAttribution) : Prop :=
  peer = .unix caller ∨ peer = .vsock ∧ ∃ role calls rest, history = calls ++ rest ∧
    e.authenticateVsockToken.Completes calls (some role) ∧ caller = .fromVsockToken role

/-- The last call received a frame with the request. -/
def Reads (history : ConnectionHistory δ) (request : DaemonRequest) : Prop :=
  ∃ before seconds raw msg, history = before ++ [⟨.own (.recv seconds), .frame raw⟩] ∧
    e.readJson raw = .ok msg ∧ e.readRequest msg = .ok request

/-- The daemon begins to serve a request: a connection received it, from a caller it had made out,
or it is time for a sweep. -/
inductive Begins : Activity → ConnectionHistory δ → Request → Prop
  | request {peer : Peer} {frames : ℕ} {history : ConnectionHistory δ}
    {caller : CallerAttribution} {daemonRequest : DaemonRequest} {request : Request}
    (hcaller : e.Identified peer history caller) (hreads : e.Reads history daemonRequest)
    (hserved : daemonRequest.served caller = some request) :
    Begins (.connection peer frames) history request
  | sweep {rounds : ℕ} {history : ConnectionHistory δ} : Begins (.sweep rounds) history .cleanup

/-- The daemon's activities host its handlers. -/
@[reducible] def hosting :
    Hosting e.daemon.system (ConnectionCall δ) (@ConnectionCall.Answer δ) where
  Host := Activity
  Choice := ConnectionChoice
  choose := ConnectionChoice.daemon
  program := e.perform
  ask := e.answer
  Begins := e.Begins

/-! ### Connections as hosts -/

variable {e} {peer : Peer} {history : ConnectionHistory δ} {caller : CallerAttribution}

/-- Who the caller is does not change. -/
theorem Identified.append (h : e.Identified peer history caller) (calls : ConnectionHistory δ) :
    e.Identified peer (history ++ calls) caller := by
  rcases h with hunix | ⟨hvsock, role, handshake, rest, rfl, hrole⟩
  · exact .inl hunix
  · exact .inr ⟨hvsock, role, handshake, rest ++ calls, List.append_assoc .., hrole⟩

/-- A request is begun for the daemon, or answered by looks and at most one execution. -/
theorem handleRequest_cases (e : Endpoint δ) (caller : CallerAttribution)
    (request : DaemonRequest) :
    (∃ r, request.served caller = some r ∧
      e.handleRequest caller request = (e.daemon.handle r).hosted) ∨
    (request.served caller = none ∧ (OnlyLooks (e.handleRequest caller request) ∨
      ∃ requestId actionName params spec f, request = .queryAction requestId actionName params ∧
        e.ReadOnlyAction actionName params spec ∧ (∀ result, OnlyLooks (f result)) ∧
        e.handleRequest caller request = ask (.daemon (.execute spec)) >>= f)) := by
  cases request with
  | preview requestId actionName params unattended => exact .inl ⟨_, rfl, rfl⟩
  | approve requestId transactionId => exact .inl ⟨_, rfl, rfl⟩
  | execute requestId transactionId actionName params receipt => exact .inl ⟨_, rfl, rfl⟩
  | cancel requestId transactionId => exact .inl ⟨_, rfl, rfl⟩
  | queryState requestId =>
    exact .inr ⟨rfl, .inl (onlyLooks_bind (e.onlyLooks_handleQueryState requestId)
      fun _ => onlyLooks_pure _)⟩
  | approvalDetails requestId transactionId =>
    exact .inr ⟨rfl, .inl (onlyLooks_bind (e.onlyLooks_handleApprovalDetails _)
      fun _ => onlyLooks_pure _)⟩
  | queryHistory requestId r =>
    exact .inr ⟨rfl, .inl (onlyLooks_bind (e.onlyLooks_handleQueryHistory requestId r)
      fun _ => onlyLooks_pure _)⟩
  | describe requestId actionName params =>
    exact .inr ⟨rfl, .inl (onlyLooks_bind (e.onlyLooks_handleDescribe caller ..)
      fun _ => onlyLooks_pure _)⟩
  | queryAction requestId actionName params =>
    refine .inr ⟨rfl, ?_⟩
    rcases e.handleQueryAction_cases requestId actionName params with
      hlooks | ⟨spec, f, hreads, hf, heq⟩
    · exact .inl (onlyLooks_bind hlooks fun _ => onlyLooks_pure _)
    · refine .inr ⟨requestId, actionName, params, spec, fun r => f r >>= fun _ => pure (), rfl,
        hreads, fun r => onlyLooks_bind (hf r) fun _ => onlyLooks_pure _, ?_⟩
      rw [handleRequest, heq]
      rfl

/-- What is not begun for the daemon is quiet. -/
theorem quiet_handleRequest {request : DaemonRequest} (h : request.served caller = none) :
    (e.handleRequest caller request).Quiet := by
  rcases e.handleRequest_cases caller request with ⟨r, hr, -⟩ | ⟨-, hlooks | hexec⟩
  · rw [h] at hr
    cases hr
  · exact hlooks.quiet
  · obtain ⟨_, _, _, spec, f, -, -, hf, heq⟩ := hexec
    rw [heq]
    exact Prog.only_perform_bind ⟨_, rfl⟩ fun r => (hf r).quiet

/-- The calls that look at the token. -/
def LooksAtToken (op : HostCall (ConnectionCall δ) DaemonCall) : Prop :=
  op = .own .tokenMode ∨ op = .own .readToken ∨ op = .own .tokenRoleVar

theorem only_validateTokenAgainstFile (token : String) :
    (validateTokenAgainstFile token : Serving δ (Option CallerRole)).Only LooksAtToken := by
  unfold validateTokenAgainstFile
  split_ifs
  · trivial
  refine Prog.only_perform_bind (.inl rfl) fun mode => ?_
  cases mode with
  | error err => trivial
  | ok mode =>
    simp only
    split_ifs
    · trivial
    refine Prog.only_perform_bind (.inr (.inl rfl)) fun stored => ?_
    cases stored with
    | error err => trivial
    | ok stored =>
      simp only
      split_ifs
      · trivial
      · exact Prog.only_perform_bind (.inr (.inr rfl)) fun var => trivial

/-- After its first frame, an authentication looks at the token. -/
theorem exists_authenticateVsockToken (e : Endpoint δ) : ∃ f, e.authenticateVsockToken =
      ask (.recv vsockAuthFrameTimeoutSecs) >>= f ∧ ∀ received, (f received).Only LooksAtToken := by
  refine ⟨_, rfl, fun received => ?_⟩
  cases received with
  | timedOut => trivial
  | framing err => trivial
  | frame raw =>
    simp only
    split
    · trivial
    · split_ifs
      · trivial
      · exact only_validateTokenAgainstFile _

theorem quiet_authenticateVsockToken : e.authenticateVsockToken.Quiet := by
  obtain ⟨f, heq, hf⟩ := e.exists_authenticateVsockToken
  rw [heq]
  refine Prog.only_perform_bind ⟨_, rfl⟩ fun received => (hf received).mono fun op hop => ?_
  rcases hop with rfl | rfl | rfl
  · exact ⟨_, rfl⟩
  · exact ⟨_, rfl⟩
  · exact ⟨_, rfl⟩

/-- What a frame comes to: nothing more, a refusal, or a request. -/
theorem handleFrame_cases (e : Endpoint δ) (caller : CallerAttribution) (raw : Bytes)
    (next : Serving δ Unit) :
    e.handleFrame caller raw next = pure () ∨
    (∃ message, e.handleFrame caller raw next =
      consult (sendError "" "validation_failure" message) >>= fun _ => next) ∨
    ∃ msg request, e.readJson raw = .ok msg ∧ e.readRequest msg = .ok request ∧
      e.handleFrame caller raw next = e.handleRequest caller request >>= fun _ => next := by
  unfold handleFrame
  split
  · exact .inl rfl
  rename_i msg hmsg
  split
  · exact .inr (.inl ⟨_, rfl⟩)
  · rename_i request hrequest
    exact .inr (.inr ⟨msg, request, hmsg, hrequest, rfl⟩)

/-- The request of a frame is begun, if it is one of the daemon's, and run to its end. -/
theorem serves_handleFrame {frames seconds : ℕ} {raw : Bytes} {next : Serving δ Unit}
    (h : e.Identified peer history caller)
    (hnext : ∀ calls, e.hosting.Serves (.connection peer frames) next (history ++ calls)
      (.pure ())) :
    e.hosting.Serves (.connection peer frames) (e.handleFrame caller raw next)
      (history ++ [⟨.own (.recv seconds), .frame raw⟩]) (.pure ()) ∨
    ∃ request, e.Begins (.connection peer frames)
        (history ++ [⟨.own (.recv seconds), .frame raw⟩]) request ∧
      e.hosting.Serves (.connection peer frames) (e.handleFrame caller raw next)
        (history ++ [⟨.own (.recv seconds), .frame raw⟩]) (e.daemon.handle request) := by
  have hlater (calls : ConnectionHistory δ) : e.hosting.Serves (.connection peer frames) next
      ((history ++ [⟨.own (.recv seconds), .frame raw⟩]) ++ calls) (.pure ()) := by
    rw [List.append_assoc]
    exact hnext _
  rcases e.handleFrame_cases caller raw next with
    heq | ⟨message, heq⟩ | ⟨msg, request, hmsg, hrequest, heq⟩
  · rw [heq]
    exact .inl rfl
  · rw [heq]
    exact .inl (Hosting.serves_quiet_bind (onlyLooks_sendError ..).quiet _
      fun calls _ _ => hlater calls)
  rw [heq]
  rcases e.handleRequest_cases caller request with ⟨r, hr, hhandle⟩ | ⟨hnone, -⟩
  · refine .inr ⟨r, .request (h.append _) ⟨history, _, raw, msg, rfl, hmsg, hrequest⟩ hr, ?_⟩
    rw [hhandle]
    exact Hosting.serves_hosted_bind _ _ hlater
  · exact .inl (Hosting.serves_quiet_bind (quiet_handleRequest hnone) _
      fun calls _ _ => hlater calls)

theorem serves_dispatchLoop {bound : ℕ} (frames requestsServed : ℕ)
    (h : e.Identified peer history caller) :
    e.hosting.Serves (.connection peer bound) (e.dispatchLoop caller requestsServed frames) history
      (.pure ()) := by
  induction frames generalizing history requestsServed with
  | zero => rfl
  | succ frames ih =>
    refine ⟨rfl, fun received => ?_⟩
    cases received with
    | timedOut => exact .inl rfl
    | framing err => exact .inl rfl
    | frame raw => exact serves_handleFrame h fun calls => ih _ (h.append calls)

theorem serves_staleSweep {bound : ℕ} (rounds : ℕ) :
    e.hosting.Serves (.sweep bound) (e.staleSweep rounds) history (.pure ()) := by
  induction rounds generalizing history with
  | zero => rfl
  | succ rounds ih =>
    exact ⟨rfl, fun _ => .inr ⟨.cleanup, .sweep, Hosting.serves_hosted_bind _ _ fun _ => ih⟩⟩

/-- An activity runs what it begins to its end. -/
theorem serves_perform (activity : Activity) :
    e.hosting.Serves activity (e.perform activity) [] (.pure ()) := by
  cases activity with
  | sweep rounds => exact serves_staleSweep rounds
  | connection peer frames =>
    cases peer with
    | unix caller => exact serves_dispatchLoop _ _ (.inl rfl)
    | vsock =>
      refine Hosting.serves_quiet_bind quiet_authenticateVsockToken _ fun calls role hcalls => ?_
      cases role with
      | none => rfl
      | some role =>
        exact serves_dispatchLoop _ _ (.inr ⟨rfl, role, calls, [], by simp, hcalls, rfl⟩)

/-! ### What a connection may call -/

variable (e) in
/-- When a connection may make a call. -/
def PermittedFor (peer : Peer) (history : ConnectionHistory δ) :
    HostCall (ConnectionCall δ) DaemonCall → Prop
  | .own (.recv _) => history = [] ∨ ∃ caller, e.Identified peer history caller
  | .own .tokenMode | .own .readToken | .own .tokenRoleVar => True
  | .own (.daemon (.execute spec)) => (∃ caller, e.Identified peer history caller) ∧
      ∃ requestId actionName params, e.Reads history (.queryAction requestId actionName params) ∧
        e.ReadOnlyAction actionName params spec
  | .own c => c.Looks ∧ ∃ caller, e.Identified peer history caller
  | .hosted _ => ∃ caller, e.Identified peer history caller

variable (e) in
/-- When an activity may make a call. -/
def Permitted : Activity → ConnectionHistory δ → HostCall (ConnectionCall δ) DaemonCall → Prop
  | .connection peer _, history, op => e.PermittedFor peer history op
  | .sweep _, _, op => op = .own .tick ∨ op = .hosted .cleanupStaleQueued

variable (e) in
/-- The automaton of the activities. -/
@[reducible] def monitor : Monitor (HostCall (ConnectionCall δ) DaemonCall)
    (HostCall.Answer (@ConnectionCall.Answer δ) DaemonCall.Answer) :=
  .recording e.Permitted

/-- A caller that was made out may have the connection look at the world. -/
theorem Identified.permitted (h : e.Identified peer history caller) {c : ConnectionCall δ}
    (hc : c.Looks) : e.PermittedFor peer history (.own c) := by
  cases c with
  | recv seconds => exact .inr ⟨caller, h⟩
  | tokenMode => trivial
  | readToken => trivial
  | tokenRoleVar => trivial
  | daemon c =>
    cases c with
    | execute spec => cases hc
    | _ => exact ⟨hc, caller, h⟩
  | _ => exact ⟨trivial, caller, h⟩

section Obeys

variable {α : Type} {bound : ℕ} {post : Activity × ConnectionHistory δ → Unit → Prop}

theorem obeys_looks_bind {p : Serving δ α} {f : α → Serving δ Unit} (hp : OnlyLooks p)
    (h : e.Identified peer history caller)
    (hf : ∀ calls a, e.monitor.Obeys post (f a) (.connection peer bound, history ++ calls)) :
    e.monitor.Obeys post (p >>= f) (.connection peer bound, history) := by
  refine hp.obeys_recording_bind history (fun calls op hop => ?_) fun calls a _ => hf calls a
  obtain ⟨c, rfl, hc⟩ := hop
  exact (h.append calls).permitted hc

theorem obeys_hosted_bind {p : Handler α} {f : α → Serving δ Unit}
    (h : e.Identified peer history caller)
    (hf : ∀ calls a, e.monitor.Obeys post (f a) (.connection peer bound, history ++ calls)) :
    e.monitor.Obeys post (p.hosted >>= f) (.connection peer bound, history) := by
  refine (Prog.only_hosted p).obeys_recording_bind history (fun calls op hop => ?_)
    fun calls a _ => hf calls a
  obtain ⟨c, rfl⟩ := hop
  exact ⟨caller, h.append calls⟩

theorem obeys_handleFrame {seconds : ℕ} {raw : Bytes} {next : Serving δ Unit}
    (h : e.Identified peer history caller) (hdone : ∀ g, post g ())
    (hnext : ∀ calls, e.monitor.Obeys post next (.connection peer bound, history ++ calls)) :
    e.monitor.Obeys post (e.handleFrame caller raw next)
      (.connection peer bound, history ++ [⟨.own (.recv seconds), .frame raw⟩]) := by
  have hreceived := h.append [⟨.own (.recv seconds), .frame raw⟩]
  have hlater (calls : ConnectionHistory δ) : e.monitor.Obeys post next
      (.connection peer bound, (history ++ [⟨.own (.recv seconds), .frame raw⟩]) ++ calls) := by
    rw [List.append_assoc]
    exact hnext _
  rcases e.handleFrame_cases caller raw next with
    heq | ⟨message, heq⟩ | ⟨msg, request, hmsg, hrequest, heq⟩
  · rw [heq]
    exact hdone _
  · rw [heq]
    exact obeys_looks_bind (onlyLooks_sendError ..) hreceived fun calls _ => hlater calls
  rw [heq]
  rcases e.handleRequest_cases caller request with ⟨r, -, hhandle⟩ | ⟨-, hlooks | hexec⟩
  · rw [hhandle]
    exact obeys_hosted_bind hreceived fun calls _ => hlater calls
  · exact obeys_looks_bind hlooks hreceived fun calls _ => hlater calls
  · -- the query is the frame that was just received
    obtain ⟨requestId, actionName, params, spec, f, rfl, hreads, hf, hhandle⟩ := hexec
    rw [hhandle]
    refine ⟨⟨⟨caller, hreceived⟩, requestId, actionName, params,
      ⟨history, seconds, raw, msg, rfl, hmsg, hrequest⟩, hreads⟩, fun result => ?_⟩
    refine obeys_looks_bind (hf result)
      (hreceived.append [⟨.own (.daemon (.execute spec)), result⟩]) fun calls _ => ?_
    rw [List.append_assoc]
    exact hlater _

theorem obeys_dispatchLoop (frames requestsServed : ℕ) (h : e.Identified peer history caller)
    (hdone : ∀ g, post g ()) :
    e.monitor.Obeys post (e.dispatchLoop caller requestsServed frames)
      (.connection peer bound, history) := by
  induction frames generalizing history requestsServed with
  | zero => exact hdone _
  | succ frames ih =>
    refine ⟨.inr ⟨caller, h⟩, fun received => ?_⟩
    cases received with
    | timedOut => exact hdone _
    | framing err => exact hdone _
    | frame raw => exact obeys_handleFrame h hdone fun calls => ih _ (h.append calls)

/-- An authentication is the first calls of a connection. -/
theorem obeys_authenticateVsockToken :
    e.monitor.Obeys (fun g role => ∃ calls, g = (.connection peer bound, calls) ∧
      e.authenticateVsockToken.Completes calls role) e.authenticateVsockToken
        (.connection peer bound, []) := by
  obtain ⟨f, heq, hf⟩ := e.exists_authenticateVsockToken
  rw [heq]
  refine ⟨.inl rfl, fun received => Monitor.Obeys.mono ((hf received).obeys_recording _
    fun calls op hop => ?_) ?_⟩
  · rcases hop with rfl | rfl | rfl <;> trivial
  · rintro g role ⟨calls, rfl, hcalls⟩
    exact ⟨_, rfl, .call received hcalls⟩

theorem obeys_staleSweep (rounds : ℕ) (hdone : ∀ g, post g ()) :
    e.monitor.Obeys post (e.staleSweep rounds) (.sweep bound, history) := by
  induction rounds generalizing history with
  | zero => exact hdone _
  | succ rounds ih => exact ⟨.inl rfl, fun _ => ⟨.inr rfl, fun _ => ih⟩⟩

/-- **The daemon's activities keep to what they may call.** -/
theorem obeys_perform (e : Endpoint δ) (activity : Activity) :
    e.monitor.Obeys (fun _ _ => True) (e.perform activity)
      (activity, []) := by
  cases activity with
  | sweep rounds => exact obeys_staleSweep rounds fun _ => trivial
  | connection peer frames =>
    cases peer with
    | unix caller => exact obeys_dispatchLoop _ _ (.inl rfl) fun _ => trivial
    | vsock =>
      refine Monitor.obeys_bind (obeys_authenticateVsockToken.mono ?_)
      rintro g role ⟨calls, rfl, hcalls⟩
      cases role with
      | none => trivial
      | some role =>
        exact obeys_dispatchLoop _ _ (.inr ⟨rfl, role, calls, [], by simp, hcalls, rfl⟩)
          fun _ => trivial

end Obeys

/-- Every call a connection has made was permitted when it made it. -/
theorem permitted_of_history (events : List e.hosting.system.Event) {i : ℕ}
    {p : e.hosting.system.Process} (hp : (e.hosting.system.run events).procs[i]? = some p)
    {before after : ConnectionHistory δ} {call : ConnectionStep δ}
    (hsplit : p.history = before ++ call :: after) :
    e.Permitted p.request before call.1 := by
  have hallowed := System.history_allowed e.monitor
    (fun activity => (activity, [])) e.obeys_perform events hp hsplit
  rw [Monitor.after_recording] at hallowed
  exact hallowed

/-- What a connection calls on its own account leaves the world as it is. -/
theorem serve_of_own (events : List e.hosting.system.Event) {i : ℕ}
    {p : e.hosting.system.Process} (hp : (e.hosting.system.run events).procs[i]? = some p)
    {before after : ConnectionHistory δ} {c : DaemonCall} {r : c.Answer}
    (hsplit : p.history = before ++ ⟨.own (.daemon c), r⟩ :: after) (w : World) (choice : Choice) :
    (w.serve e.daemon.store choice c).2 = w := by
  have hpermitted := permitted_of_history events hp hsplit
  cases hactivity : p.request with
  | connection peer frames =>
    rw [hactivity] at hpermitted
    cases c with
    | execute spec => rfl
    | _ => exact World.serve_of_looks _ w choice hpermitted.1
  | sweep rounds =>
    rw [hactivity] at hpermitted
    rcases hpermitted with h | h
    · cases h
    · cases h

end Endpoint

end Sysknife.Dispatcher
