import Sysknife.Dispatcher.Binding
import Sysknife.Dispatcher.Connections

/-!
# What connections may do

Connections host the handlers of the daemon, so that a run of the daemon's activities is a run of
its handlers on the same store (`Endpoint.exists_daemon_run`), and what holds in every run of the
handlers holds of connections.

* `handshake_of_vsock`: **a vsock peer gets nothing before its token was accepted**, and the token
  was read from a file that only the daemon's account can access.
* `executions_warranted`: **whatever is executed on a connection was asked for on it**, and either
  is an action that only reads, or is bound to a preview and an approval of the same account, made
  on this or other connections.
-/

namespace Sysknife.Dispatcher

open Store Audit

namespace Endpoint

variable {δ : Type} {e : Endpoint δ} {peer : Peer} {history : ConnectionHistory δ}
  {caller : CallerAttribution}

/-! ### The handshake -/

variable (e) in
/-- The calls begin with an authentication: the token in the first frame is the text of a token
file without access for others, and the role is the one configured for those who hold it. -/
def Handshake (history : ConnectionHistory δ) (caller : CallerAttribution) : Prop :=
  ∃ raw token mode stored var rest,
    history = ⟨.own (.recv vsockAuthFrameTimeoutSecs), .frame raw⟩ ::
      ⟨.own .tokenMode, .ok mode⟩ :: ⟨.own .readToken, .ok stored⟩ ::
      ⟨.own .tokenRoleVar, var⟩ :: rest ∧
    e.readAuthFrame raw = .ok ("auth", token) ∧ token ≠ "" ∧ mode &&& 0o077 = 0 ∧
    trim stored = token ∧ caller = .fromVsockToken (tokenRole var)

/-- A token is accepted for one reason only. -/
theorem completes_validateTokenAgainstFile {token : String} {calls : ConnectionHistory δ}
    {role : CallerRole}
    (h : (validateTokenAgainstFile token : Serving δ _).Completes calls (some role)) :
    ∃ mode stored var, calls = [⟨.own .tokenMode, .ok mode⟩, ⟨.own .readToken, .ok stored⟩,
      ⟨.own .tokenRoleVar, var⟩] ∧ token ≠ "" ∧ mode &&& 0o077 = 0 ∧ trim stored = token ∧
      role = tokenRole var := by
  unfold validateTokenAgainstFile at h
  split_ifs at h with htoken
  · cases h.of_pure.2
  obtain ⟨mode, calls₁, rfl, h₁⟩ := h.of_call
  cases mode with
  | error err => cases h₁.of_pure.2
  | ok mode =>
    simp only [Prog.bind] at h₁
    split_ifs at h₁ with hmode
    · cases h₁.of_pure.2
    obtain ⟨stored, calls₂, rfl, h₂⟩ := h₁.of_call
    cases stored with
    | error err => cases h₂.of_pure.2
    | ok stored =>
      simp only [Prog.bind] at h₂
      split_ifs at h₂ with hstored
      · cases h₂.of_pure.2
      obtain ⟨var, calls₃, rfl, h₃⟩ := h₂.of_call
      obtain ⟨rfl, hrole⟩ := h₃.of_pure
      rw [not_or, not_not] at hstored
      exact ⟨mode, stored, var, rfl, htoken, not_not.mp hmode, hstored.2, Option.some.inj hrole⟩

/-- The caller of a vsock connection is known by its handshake. -/
theorem Identified.handshake (h : e.Identified .vsock history caller) :
    e.Handshake history caller := by
  rcases h with hunix | ⟨-, role, calls, rest, rfl, hcalls, rfl⟩
  · cases hunix
  obtain ⟨received, calls₁, rfl, hframe⟩ := hcalls.of_call
  cases received with
  | timedOut => cases hframe.of_pure.2
  | framing err => cases hframe.of_pure.2
  | frame raw =>
    simp only [Prog.bind] at hframe
    split at hframe
    · cases hframe.of_pure.2
    rename_i msgType token hread
    split_ifs at hframe with htype
    · cases hframe.of_pure.2
    obtain ⟨mode, stored, var, rfl, htoken, hmode, hstored, rfl⟩ :=
      completes_validateTokenAgainstFile hframe
    obtain rfl := not_not.mp htype
    exact ⟨raw, token, mode, stored, var, rest, rfl, hread, htoken, hmode, hstored, rfl⟩

/-! ### Runs of connections, and runs of the daemon -/

variable (e) in
/-- The connection was asked for the request. -/
def Asked (p : e.hosting.system.Process) (request : Request) : Prop :=
  ∃ before after, p.history = before ++ after ∧ e.Begins p.request before request

variable (e) in
/-- The connection was asked for the request, and these are the calls made for it. -/
def Served (p : e.hosting.system.Process) (request : Request)
    (calls : List (Call DaemonCall DaemonCall.Answer)) : Prop :=
  ∃ before after, p.history = before ++ Hosting.hostedCalls calls ++ after ∧
    e.Begins p.request before request

theorem Served.asked {p : e.hosting.system.Process} {request : Request}
    {calls : List (Call DaemonCall DaemonCall.Answer)} (h : e.Served p request calls) :
    e.Asked p request := by
  obtain ⟨before, after, hsplit, hbegins⟩ := h
  exact ⟨before, _, by rw [hsplit, List.append_assoc], hbegins⟩

variable (e) in
/-- The identifier drawn for a new transaction is new: no request so far names it. -/
def FreshIds (c : e.hosting.system.Config) : e.hosting.system.Event → Prop
  | .arrive _ => True
  | .act pid choice => ∀ (p : e.hosting.system.Process) tx preview k, c.procs[pid]? = some p →
      p.program = .call (.hosted (.recordPreviewed tx preview)) k →
      ∀ (i : ℕ) (q : e.hosting.system.Process) (request : Request), c.procs[i]? = some q →
        e.Asked q request → request.transactionId ≠ some choice.daemon.uuid

variable (e) in
/-- The hashes of the requests that connections were asked for do not collide. -/
def CollisionFree (c : e.hosting.system.Config) : Prop :=
  ∀ (i j : ℕ) (p q : e.hosting.system.Process) (a b : Request) m m', c.procs[i]? = some p →
    c.procs[j]? = some q → e.Asked p a → e.Asked q b → a.message = some m → b.message = some m' →
    e.daemon.hmac m = e.daemon.hmac m' → m = m'

/-- A process of the daemon is the service of a request some connection was asked for. -/
theorem exists_served {c : e.hosting.system.Config} {a : e.daemon.system.Config}
    {guest : ℕ → Option ℕ} (h : e.hosting.Simulates c a guest) {j : ℕ}
    {q : e.daemon.system.Process} (hq : a.procs[j]? = some q) :
    ∃ (i : ℕ) (p : e.hosting.system.Process), c.procs[i]? = some p ∧
      e.Served p q.request q.history := by
  obtain ⟨i, p, hp, before, after, hran⟩ := h.exists_isGuest j q hq
  exact ⟨i, p, hp, before, after, hran.history, hran.begins⟩

/-- **Connections do what the daemon does**: a run of connections is a run of the daemon's handlers
on the same store, for the requests the connections were asked for. -/
theorem exists_daemon_run (events : List e.hosting.system.Event)
    (hfresh : System.Along e.FreshIds events) :
    ∃ (events' : List e.daemon.system.Event) (guest : ℕ → Option ℕ),
      e.hosting.Simulates (e.hosting.system.run events) (e.daemon.system.run events') guest ∧
      System.Along Dispatcher.FreshIds events' := by
  refine Hosting.exists_run serves_perform (fun _ _ => trivial) ?_ events hfresh
  intro c a guest pid choice j h hguest hR q tx preview k hq hprogram i q' hq' heq
  obtain ⟨p, k', hp, hnext⟩ := h.exists_next hguest hq hprogram
  obtain ⟨i', p', hp', hserved⟩ := exists_served h hq'
  exact hR p tx preview k' hp hnext i' p' q'.request hp' hserved.asked heq

/-- The call of the connection is one of the handler of a request that it was asked for, and has
made no call but the handler's since. -/
structure MadeFor (e : Endpoint δ) (peer : Peer) (before : ConnectionHistory δ)
    (call : Call DaemonCall DaemonCall.Answer) (caller : CallerAttribution)
    (daemonRequest : DaemonRequest) (request : Request) : Prop where
  identified : ∃ begun calls, before = begun ++ Hosting.hostedCalls calls ∧
    e.Identified peer begun caller ∧ e.Reads begun daemonRequest ∧
    (e.daemon.handle request).Traces (calls ++ [call])
  served : daemonRequest.served caller = some request

/-- A call for a handler is one of the handler of the request that was read last. -/
theorem exists_madeFor (e : Endpoint δ) (events : List e.hosting.system.Event) {i : ℕ}
    {p : e.hosting.system.Process} (hp : (e.hosting.system.run events).procs[i]? = some p)
    {frames : ℕ} (hpeer : p.request = .connection peer frames) {before after : ConnectionHistory δ}
    {op : DaemonCall} {r : op.Answer} (hsplit : p.history = before ++ ⟨.hosted op, r⟩ :: after) :
    ∃ caller daemonRequest request,
      e.MadeFor peer before ⟨op, r⟩ caller daemonRequest request := by
  have halong : System.Along (fun _ _ => True) events := fun _ _ _ _ => trivial
  obtain ⟨events', guest, h, -⟩ : ∃ (events' : List e.daemon.system.Event) (guest : ℕ → Option ℕ),
      e.hosting.Simulates (e.hosting.system.run events) (e.daemon.system.run events') guest ∧
      System.Along (fun _ _ => True) events' :=
    Hosting.exists_run serves_perform (fun _ _ => trivial)
      (fun _ _ _ _ _ _ _ _ _ => trivial) events halong
  obtain ⟨j, q, hq, begun, calls, rest, hbefore, hbegins, hcalls⟩ :=
    h.exists_makes i p hp before after op r hsplit
  have htraces := System.traces_run events' hq [] (.start _)
  rw [List.append_nil, hcalls, ← List.singleton_append, ← List.append_assoc] at htraces
  rw [hpeer] at hbegins
  cases hbegins with
  | request hcaller hreads hserved =>
    exact ⟨_, _, q.request, ⟨begun, calls, hbefore, hcaller, hreads, htraces.of_append⟩, hserved⟩

/-! ### The handshake in every run -/

/-- **A vsock peer gets nothing before its token was accepted.** In every run, the calls of a vsock
connection are the wait for its first frame, the look at the token, and those that come after a
handshake; and those it makes for the daemon's handlers serve the requests it reads, in the name of
the caller of the handshake. -/
theorem handshake_of_vsock (e : Endpoint δ) (events : List e.hosting.system.Event) (i : ℕ)
    (p : e.hosting.system.Process) (hp : (e.hosting.system.run events).procs[i]? = some p)
    (frames : ℕ) (hvsock : p.request = .connection .vsock frames) :
    (∀ before call after, p.history = before ++ call :: after →
      (before = [] ∧ ∃ seconds, call.1 = .own (.recv seconds)) ∨ LooksAtToken call.1 ∨
      ∃ caller, e.Handshake before caller) ∧
    ∀ before op r after, p.history = before ++ ⟨.hosted op, r⟩ :: after →
      ∃ caller daemonRequest request, e.Handshake before caller ∧
        e.MadeFor .vsock before ⟨op, r⟩ caller daemonRequest request := by
  constructor
  · intro before call after hsplit
    have hpermitted := permitted_of_history events hp hsplit
    rw [hvsock] at hpermitted
    have hhandshake (h : ∃ caller, e.Identified .vsock before caller) :
        ∃ caller, e.Handshake before caller := h.imp fun _ => Identified.handshake
    obtain ⟨op, answer⟩ := call
    cases op with
    | hosted c => exact .inr (.inr (hhandshake hpermitted))
    | own c =>
      cases c with
      | recv seconds =>
        rcases hpermitted with hfirst | hlater
        · exact .inl ⟨hfirst, seconds, rfl⟩
        · exact .inr (.inr (hhandshake hlater))
      | tokenMode => exact .inr (.inl (.inl rfl))
      | readToken => exact .inr (.inl (.inr (.inl rfl)))
      | tokenRoleVar => exact .inr (.inl (.inr (.inr rfl)))
      | daemon c =>
        cases c with
        | execute spec => exact .inr (.inr (hhandshake hpermitted.1))
        | _ => exact .inr (.inr (hhandshake hpermitted.2))
      | _ => exact .inr (.inr (hhandshake hpermitted.2))
  · intro before op r after hsplit
    obtain ⟨caller, daemonRequest, request, hmade⟩ := e.exists_madeFor events hp hvsock hsplit
    obtain ⟨begun, calls, rfl, hcaller, -, -⟩ := hmade.identified
    exact ⟨caller, daemonRequest, request, (hcaller.append _).handshake, hmade⟩

/-! ### Executions -/

/-- The call executes an action. -/
def Executes (op : HostCall (ConnectionCall δ) DaemonCall) (spec : ActionSpec) : Prop :=
  op = .hosted (.executeWithProgress spec) ∨ op = .hosted (.execute spec) ∨
  op = .own (.daemon (.executeWithProgress spec)) ∨ op = .own (.daemon (.execute spec))

variable (e) in
/-- An `execute` request is bound to a preview and an approval that connections were asked for. -/
structure ApprovedOn (c : e.hosting.system.Config) (r : ExecuteRequest) : Prop where
  /-- A preview of the same action and parameters, by the same account, created the transaction. -/
  previewed : ∃ (i : ℕ) (p : e.hosting.system.Process) (v : PreviewRequest) (calls : List _)
    (tx : _) (preview : _) (record : _), c.procs[i]? = some p ∧ e.Served p (.preview v) calls ∧
      ⟨.recordPreviewed tx preview, .ok record⟩ ∈ calls ∧ record.transactionId = r.transactionId ∧
      requestHashMessage v.actionName v.params = requestHashMessage r.actionName r.params ∧
      v.caller.principal = r.caller.principal
  attributed : r.caller.principal ≠ .unattributed
  role : ∃ required, e.daemon.policy.minRoleForAction r.actionName = some required ∧
    required ≤ r.caller.role
  /-- The same account was given the receipt. -/
  approved : ∃ (i : ℕ) (p : e.hosting.system.Process) (a : TransactionRequest) (calls : List _)
    (receipt : String), c.procs[i]? = some p ∧ e.Served p (.approve a) calls ∧
      a.transactionId = r.transactionId ∧ a.caller.principal = r.caller.principal ∧
      ⟨.approveTransaction r.transactionId r.caller.principal, .ok (some receipt)⟩ ∈ calls
  /-- The account's approval is on record and was not revoked since. -/
  granted : ∃ before grant after, c.world.store.events = before ++ grant :: after ∧
    grant.kind = AuditEventKind.approvalGranted.asStr ∧ grant.transactionId = r.transactionId ∧
    grant.callerPrincipal = some r.caller.principal.asSignedStr ∧
    ∀ event ∈ after, event.transactionId = r.transactionId →
      event.kind ≠ AuditEventKind.approvalRevoked.asStr

theorem approvedOn_of_boundTo {c : e.hosting.system.Config} {a : e.daemon.system.Config}
    {guest : ℕ → Option ℕ} (h : e.hosting.Simulates c a guest) {r : ExecuteRequest}
    (hbound : BoundTo a r) : e.ApprovedOn c r := by
  refine ⟨?_, hbound.attributed, hbound.role, ?_, ?_⟩
  · obtain ⟨j, q, hq, hrecorded⟩ := hbound.previewed
    obtain ⟨v, hv, hterms⟩ := hbound.terms j q hq hrecorded
    obtain ⟨tx, preview, record, hmem, hid⟩ := hrecorded
    obtain ⟨i, p, hp, hserved⟩ := exists_served h hq
    rw [hv] at hserved
    exact ⟨i, p, v, q.history, tx, preview, record, hp, hserved, hmem, hid, hterms⟩
  · obtain ⟨j, q, approval, receipt, hq, hrequest, ht, hprincipal, hmem⟩ := hbound.approved
    obtain ⟨i, p, hp, hserved⟩ := exists_served h hq
    rw [hrequest] at hserved
    exact ⟨i, p, approval, q.history, receipt, hp, hserved, ht, hprincipal, hmem⟩
  · rw [← show a.world = c.world from h.world]
    exact hbound.granted

/-- What an `execute` request executes: its action, or the rollback of it after it failed and is
known to have stopped. -/
def ExecutedBy (d : Daemon) (r : ExecuteRequest) (calls : List (Call DaemonCall DaemonCall.Answer))
    (spec : ActionSpec) : Prop :=
  d.buildActionSpec r.actionName r.params = .ok spec ∨
  ∃ failedSpec lines result, d.buildActionSpec r.actionName r.params = .ok failedSpec ∧
    failedSpec.rollbackAvailable = true ∧ rollbackSpecFor r.actionName = some spec ∧
    ⟨.executionResult, (lines, result)⟩ ∈ calls ∧ failed result = true ∧
    mayStillBeRunning result = false

/-- What a process of the daemon executes, it executes for a request that is bound. -/
theorem executedBy_of_history {d : Daemon} {events : List d.system.Event}
    (hfresh : System.Along Dispatcher.FreshIds events)
    (hcollision : Dispatcher.CollisionFree d (System.arrivals events)) {j : ℕ}
    {q : d.system.Process} (hq : (d.system.run events).procs[j]? = some q)
    {calls rest : List (Call DaemonCall DaemonCall.Answer)} {op : DaemonCall} {r : op.Answer}
    (hsplit : q.history = calls ++ ⟨op, r⟩ :: rest) {spec : ActionSpec}
    (hop : op = .executeWithProgress spec ∨ op = .execute spec) :
    ∃ request, q.request = .execute request ∧ BoundTo (d.system.run events) request ∧
      ExecutedBy d request calls spec := by
  have hallowed := System.history_allowed (conduct d) (fun req => (req, {})) (conducts d) events hq
    hsplit
  have hsound := allSound_run events j q hq
  have hmem : ⟨op, r⟩ ∈ q.history := by
    rw [hsplit]
    exact List.mem_append_right _ List.mem_cons_self
  have hbound := bound_run events hfresh
  rcases hop with rfl | rfl
  · obtain ⟨request, hrequest, hchecked, -⟩ := hallowed
    rw [after_fst] at hrequest
    have hstarted : (progress d q).started = true := by
      rw [progress_started, List.any_eq_true]
      exact ⟨_, hmem, rfl⟩
    exact ⟨request, hrequest, hbound.boundTo hcollision hq hrequest (hsound.started hstarted),
      .inl hchecked.spec_eq⟩
  · obtain ⟨request, failedSpec, result, hrequest, hspec, havailable, hrollback, -, -, hresult,
      hfailed, hstopped, -⟩ := hallowed
    rw [after_fst] at hrequest
    have hrolledBack : (progress d q).rolledBack = true := by
      rw [progress_rolledBack, List.any_eq_true]
      exact ⟨_, hmem, rfl⟩
    obtain ⟨lines, hlines⟩ := mem_history_of_result (p := ⟨q.request, q.program, calls⟩) hresult
    exact ⟨request, hrequest, hbound.boundTo hcollision hq hrequest (hsound.rolledBack hrolledBack),
      .inr ⟨failedSpec, lines, result, hspec, havailable, hrollback, hlines, hfailed, hstopped⟩⟩

/-- **Whatever is executed on a connection was asked for on it.** In every run in which new
transactions get new identifiers and request hashes do not collide, a call that executes an action
is either the answer to the query that was just read, of an action that only reads, or one that an
`execute` request makes, which was read before from a caller that was made out, and is bound to a
preview and an approval of the same account. -/
theorem executions_warranted (e : Endpoint δ) (events : List e.hosting.system.Event)
    (hfresh : System.Along e.FreshIds events)
    (hcollision : e.CollisionFree (e.hosting.system.run events)) (i : ℕ)
    (p : e.hosting.system.Process) (hp : (e.hosting.system.run events).procs[i]? = some p)
    (before after : ConnectionHistory δ) (call : ConnectionStep δ)
    (hsplit : p.history = before ++ call :: after) (spec : ActionSpec)
    (hexecutes : Executes call.1 spec) :
    (∃ requestId actionName params,
      e.Reads before (.queryAction requestId actionName params) ∧
      e.ReadOnlyAction actionName params spec) ∨
    ∃ begun calls r, before = begun ++ Hosting.hostedCalls calls ∧
      e.Begins p.request begun (.execute r) ∧ ExecutedBy e.daemon r calls spec ∧
      e.ApprovedOn (e.hosting.system.run events) r := by
  obtain ⟨op, answer⟩ := call
  have hpermitted := permitted_of_history events hp hsplit
  have hhosted (c : DaemonCall) (hop : op = .hosted c)
      (hc : c = .executeWithProgress spec ∨ c = .execute spec) :
      ∃ begun calls r, before = begun ++ Hosting.hostedCalls calls ∧
        e.Begins p.request begun (.execute r) ∧ ExecutedBy e.daemon r calls spec ∧
        e.ApprovedOn (e.hosting.system.run events) r := by
    subst hop
    obtain ⟨events', guest, h, hfresh'⟩ := exists_daemon_run events hfresh
    have hcollision' : Dispatcher.CollisionFree e.daemon (System.arrivals events') := by
      intro a ha b hb m m' hm hm' hhash
      rw [← System.requests_run] at ha hb
      obtain ⟨q, hq, rfl⟩ := List.mem_map.mp ha
      obtain ⟨q', hq', rfl⟩ := List.mem_map.mp hb
      obtain ⟨j, hj⟩ := List.mem_iff_getElem?.mp hq
      obtain ⟨j', hj'⟩ := List.mem_iff_getElem?.mp hq'
      obtain ⟨k, s, hs, hserved⟩ := exists_served h hj
      obtain ⟨k', s', hs', hserved'⟩ := exists_served h hj'
      exact hcollision k k' s s' _ _ m m' hs hs' hserved.asked hserved'.asked hm hm' hhash
    obtain ⟨j, q, hq, begun, calls, rest, hbefore, hbegins, hcalls⟩ :=
      h.exists_makes i p hp before after c answer hsplit
    obtain ⟨r, hrequest, hbound, hexecuted⟩ :=
      executedBy_of_history hfresh' hcollision' hq hcalls hc
    rw [hrequest] at hbegins
    exact ⟨begun, calls, r, hbefore, hbegins, hexecuted, approvedOn_of_boundTo h hbound⟩
  rcases hexecutes with hop | hop | hop | hop
  · exact .inr (hhosted _ hop (.inl rfl))
  · exact .inr (hhosted _ hop (.inr rfl))
  · obtain rfl : op = .own (.daemon (.executeWithProgress spec)) := hop
    rcases hactivity : p.request with ⟨peer, frames⟩ | rounds
    · rw [hactivity] at hpermitted
      cases hpermitted.1
    · rw [hactivity] at hpermitted
      rcases hpermitted with h | h <;> cases h
  · obtain rfl : op = .own (.daemon (.execute spec)) := hop
    rcases hactivity : p.request with ⟨peer, frames⟩ | rounds
    · rw [hactivity] at hpermitted
      exact .inl hpermitted.2
    · rw [hactivity] at hpermitted
      rcases hpermitted with h | h <;> cases h

end Endpoint

/-! ### Sample connections -/

/-- The transaction a request names. -/
def DaemonRequest.transactionId : DaemonRequest → Option String
  | .approve _ transactionId | .cancel _ transactionId => some transactionId
  | .execute _ transactionId _ _ _ => some transactionId
  | _ => none

theorem DaemonRequest.transactionId_of_served {caller : CallerAttribution} {r : DaemonRequest}
    {request : Request} (h : r.served caller = some request) :
    request.transactionId = r.transactionId := by
  cases r with
  | preview requestId actionName params unattended => cases h; rfl
  | approve requestId transactionId => cases h; rfl
  | execute requestId transactionId actionName params receipt => cases h; rfl
  | cancel requestId transactionId => cases h; rfl
  | _ => cases h

namespace Endpoint

variable {δ : Type} (e : Endpoint δ)

/-- The transaction that the request in a received frame names. -/
def namedBy : ConnectionStep δ → Option String
  | ⟨.own (.recv _), received⟩ =>
    match (received : Received) with
    | .frame raw =>
      ((e.readJson raw).toOption.bind fun msg => (e.readRequest msg).toOption).bind
        DaemonRequest.transactionId
    | _ => none
  | _ => none

/-- A test for `FreshIds`. -/
def drawsFresh (c : e.hosting.system.Config) : e.hosting.system.Event → Bool
  | .arrive _ => true
  | .act pid choice =>
    !(c.procs[pid]?.any fun p =>
      match p.program with
      | .call (.hosted op) _ => op.records
      | _ => false) ||
    c.procs.all fun q => q.history.all fun call => e.namedBy call != some choice.daemon.uuid

variable {e} in
/-- A request that names a transaction was read off a frame. -/
theorem Begins.exists_reads {activity : Activity} {history : ConnectionHistory δ}
    {request : Request} (h : e.Begins activity history request) {t : String}
    (ht : request.transactionId = some t) : ∃ caller daemonRequest,
      e.Reads history daemonRequest ∧ daemonRequest.served caller = some request := by
  cases h with
  | request hcaller hreads hserved => exact ⟨_, _, hreads, hserved⟩
  | sweep => cases ht

theorem freshIds_of_drawsFresh (c : e.hosting.system.Config) (event : e.hosting.system.Event)
    (h : e.drawsFresh c event = true) : e.FreshIds c event := by
  cases event with
  | arrive activity => trivial
  | act pid choice =>
    intro p tx preview k hp hprogram i q request hq hasked heq
    obtain ⟨before, after, hsplit, hbegins⟩ := hasked
    obtain ⟨caller, daemonRequest, hreads, hserved⟩ := hbegins.exists_reads heq
    obtain ⟨earlier, seconds, raw, msg, hbefore, hmsg, hrequest⟩ := hreads
    rw [drawsFresh, hp, Option.any_some, hprogram, Bool.or_eq_true] at h
    rcases h with h | h
    · cases h
    have hmem : ⟨.own (.recv seconds), .frame raw⟩ ∈ q.history := by
      rw [hsplit, hbefore]
      simp
    have hne := List.all_eq_true.mp (List.all_eq_true.mp h q (List.mem_of_getElem? hq)) _ hmem
    have hnamed : e.namedBy ⟨.own (.recv seconds), .frame raw⟩ = daemonRequest.transactionId := by
      rw [namedBy, hmsg]
      change ((e.readRequest msg).toOption).bind _ = _
      rw [hrequest]
      rfl
    rw [hnamed, ← DaemonRequest.transactionId_of_served hserved, heq, bne_self_eq_false] at hne
    cases hne

end Endpoint

/-- A host that reads requests off the first byte of a frame, and tokens off none. -/
def sampleEndpoint : Endpoint String where
  daemon := atomicHost
  catalogue := historyCatalogue
  history := literalEnv
  hostDistro := none
  readJson raw := .ok (.arr (raw.map fun b => .int b.toNat))
  readRequest
    | .arr [.int 1] => .ok (.preview "req" "UpdateSystem" (.obj []) false)
    | .arr [.int 2] => .ok (.approve "req" "tx-1")
    | .arr [.int 3] =>
      let r := sampleExecute atomicHost "tx-1" "UpdateSystem" (.obj [])
      .ok (.execute r.requestId r.transactionId r.actionName r.params r.approvalReceipt)
    | _ => .error "unknown variant"
  readAuthFrame _ := .ok ("auth", "secret")

/-- Nothing fails, and the token file is in order. -/
def sampleConnectionChoice (frame : Bytes) : ConnectionChoice where
  daemon := sampleChoice
  received := .frame frame
  tokenMode := .ok 0o600
  token := .ok "secret\n"
  tokenRole := none

/-- The connection `pid` receives a frame and makes `n` more calls. -/
def exchange (pid n : ℕ) (frame : Bytes) : List sampleEndpoint.hosting.system.Event :=
  List.replicate (n + 1) (.act pid (sampleConnectionChoice frame))

/-- An administrator previews an upgrade, approves it and starts it. -/
def upgradeServed : List sampleEndpoint.hosting.system.Event :=
  .arrive (.connection (.unix sampleCaller) 3) ::
    exchange 0 3 [1] ++ exchange 0 4 [2] ++ exchange 0 9 [3]

theorem collisionFree_sampleEndpoint (c : sampleEndpoint.hosting.system.Config) :
    sampleEndpoint.CollisionFree c :=
  fun _ _ _ _ _ _ _ _ _ _ _ _ _ _ heq => (List.cons.inj heq).2

/-- Does the call start an action? -/
def startsHosted : HostCall (ConnectionCall String) DaemonCall → Bool
  | .hosted op => op.starts
  | _ => false

theorem executions_warranted_upgrade : System.Along sampleEndpoint.FreshIds upgradeServed ∧
    ∃ p before after call spec,
      (sampleEndpoint.hosting.system.run upgradeServed).procs[0]? = some p ∧
      p.history = before ++ call :: after ∧ Endpoint.Executes call.1 spec ∧
      ((∃ requestId actionName params,
        sampleEndpoint.Reads before (.queryAction requestId actionName params) ∧
        sampleEndpoint.ReadOnlyAction actionName params spec) ∨
      ∃ begun calls r, before = begun ++ Hosting.hostedCalls calls ∧
        sampleEndpoint.Begins p.request begun (.execute r) ∧
        Endpoint.ExecutedBy sampleEndpoint.daemon r calls spec ∧
        sampleEndpoint.ApprovedOn (sampleEndpoint.hosting.system.run upgradeServed) r) := by
  have hfresh : System.Along sampleEndpoint.FreshIds upgradeServed :=
    System.along_of_check sampleEndpoint.freshIds_of_drawsFresh (by decide +kernel)
  have hstarts : ((sampleEndpoint.hosting.system.run upgradeServed).procs[0]?.map fun p =>
      p.history.any fun call => startsHosted call.1) = some true := by
    decide +kernel
  obtain ⟨p, hp, hstarts⟩ := Option.map_eq_some_iff.mp hstarts
  obtain ⟨⟨op, answer⟩, hmem, hop⟩ := List.any_eq_true.mp hstarts
  obtain ⟨before, after, hsplit⟩ := List.append_of_mem hmem
  cases op with
  | own c => cases hop
  | hosted c =>
    obtain ⟨spec, rfl⟩ := starts_eq_true hop
    exact ⟨hfresh, p, before, after, _, spec, hp, hsplit, .inl rfl,
      Endpoint.executions_warranted sampleEndpoint upgradeServed hfresh
        (collisionFree_sampleEndpoint _) 0 p hp before after _ hsplit spec (.inl rfl)⟩

/-- Is the call one for a handler of the daemon? -/
def isHosted : HostCall (ConnectionCall String) DaemonCall → Bool
  | .hosted _ => true
  | .own _ => false

/-- A holder of the token has an upgrade previewed. -/
def tokenServed : List sampleEndpoint.hosting.system.Event :=
  .arrive (.connection .vsock 1) :: exchange 0 3 [0] ++ exchange 0 1 [1]

theorem handshake_of_vsock_token : ∃ p,
    (sampleEndpoint.hosting.system.run tokenServed).procs[0]? = some p ∧
    p.request = .connection .vsock 1 ∧
    ∃ before op r after, p.history = before ++ ⟨.hosted op, r⟩ :: after ∧
      ∃ caller daemonRequest request, sampleEndpoint.Handshake before caller ∧
        sampleEndpoint.MadeFor .vsock before ⟨op, r⟩ caller daemonRequest request := by
  have hserved : ((sampleEndpoint.hosting.system.run tokenServed).procs[0]?.map fun p =>
      p.history.any fun call => isHosted call.1) = some true := by
    decide +kernel
  obtain ⟨p, hp, hhosted⟩ := Option.map_eq_some_iff.mp hserved
  have hvsock : p.request = .connection .vsock 1 := by
    have hrequest : ((sampleEndpoint.hosting.system.run tokenServed).procs.map
        System.Process.request)[0]? = some p.request := by
      rw [List.getElem?_map, hp]
      rfl
    rw [System.requests_run] at hrequest
    exact Option.some.inj (hrequest.symm.trans rfl)
  obtain ⟨⟨op, answer⟩, hmem, hop⟩ := List.any_eq_true.mp hhosted
  obtain ⟨before, after, hsplit⟩ := List.append_of_mem hmem
  cases op with
  | own c => cases hop
  | hosted c =>
    exact ⟨p, hp, hvsock, before, c, answer, after, hsplit,
      (Endpoint.handshake_of_vsock sampleEndpoint tokenServed 0 p hp 1 hvsock).2 before c answer
        after hsplit⟩

end Sysknife.Dispatcher
