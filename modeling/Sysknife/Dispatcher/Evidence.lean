import Mathlib.Data.List.Induction
import Sysknife.Dispatcher.Handlers

/-!
# What a handler looked at before it acted

A request runs at most one command of its own before anything is decided: a preview to see what
an action would do, an execution to see whether it still would. `Evidence` says of the calls a
request made so far what a recorded preview, or a started action, rests on, and `evidences` is
the proof, along the handlers' code, that nothing is recorded or started without it.
-/

namespace Sysknife.Dispatcher

open Store

/-! ### Histories -/

/-- The commands that were run, each with its answer. -/
def ran (calls : List (Call DaemonCall DaemonCall.Answer)) :
    List (String × List String × Except String String) :=
  calls.filterMap fun
    | ⟨.runCommand program args, answer⟩ => some (program, args, answer)
    | _ => none

/-- The calls that neither look at the host nor act on the strength of it. -/
def DaemonCall.plain : DaemonCall → Bool
  | .runCommand _ _ | .recordPreviewed _ _ | .executeWithProgress _ => false
  | _ => true

@[simp] theorem ran_nil : ran [] = [] := rfl

theorem ran_append (calls calls' : List (Call DaemonCall DaemonCall.Answer)) :
    ran (calls ++ calls') = ran calls ++ ran calls' :=
  List.filterMap_append

@[simp] theorem ran_concat_runCommand (calls : List (Call DaemonCall DaemonCall.Answer))
    (program : String) (args : List String) (answer : Except String String) :
    ran (calls ++ [⟨.runCommand program args, answer⟩]) = ran calls ++ [(program, args, answer)] :=
  ran_append _ _

/-- Only running a command adds to what was run. -/
theorem ran_concat_of_plain {calls : List (Call DaemonCall DaemonCall.Answer)}
    (op : DaemonCall) (hop : op.plain = true) (answer : op.Answer) :
    ran (calls ++ [⟨op, answer⟩]) = ran calls := by
  rw [ran_append]
  cases op with
  | runCommand program args => cases hop
  | _ => exact List.append_nil _

/-- What was run shows in the history. -/
theorem mem_of_mem_ran {calls : List (Call DaemonCall DaemonCall.Answer)} {program : String}
    {args : List String} {answer : Except String String} (h : (program, args, answer) ∈ ran calls) :
    (⟨.runCommand program args, answer⟩ : Call DaemonCall DaemonCall.Answer) ∈ calls := by
  obtain ⟨⟨op, a⟩, hmem, heq⟩ := List.mem_filterMap.mp h
  split at heq
  · obtain ⟨rfl, rfl, rfl⟩ := by simpa using Option.some.inj heq
    rename_i hcall
    rw [hcall] at hmem
    exact hmem
  · cases heq

/-! ### Evidence -/

/-- The commands whose answers approvals are bound to. -/
def simulateCommand (answer : Except String String) : String × List String × Except String String :=
  ("apt-get", ["-s", "autoremove"], answer)

def statusCommand (answer : Except String String) : String × List String × Except String String :=
  ("rpm-ostree", ["status", "--json"], answer)

/-- What a preview captures is read off the one command it ran. -/
structure Captured (d : Daemon) (r : PreviewRequest)
    (calls : List (Call DaemonCall DaemonCall.Answer)) (change : Value) : Prop where
  autoremove : ∀ v, change.get autoremoveRemovalsKey = some v → ∃ out,
    ran calls = [simulateCommand (.ok out)] ∧
      v = .arr ((parseAutoremoveRemovals out).map .str)
  deployment : ∀ v, change.get deploymentIdentityKey = some v → ∃ out index checksum,
    ran calls = [statusCommand (.ok out)] ∧
      (r.params.get "index").bind Value.asU64 = some index ∧
      parseDeploymentIdentity d out (index % 2 ^ 32) = .ok checksum ∧ v = .str checksum

/-- What an execution has to have seen before its action starts: the captured preview, and, by
the one command it ran, that the effect is still as captured. -/
structure Rechecked (d : Daemon) (r : ExecuteRequest)
    (calls : List (Call DaemonCall DaemonCall.Answer)) : Prop where
  autoremove : r.actionName = "AptAutoremove" → ∃ preview live,
    (⟨.getPreview r.transactionId, .ok (some preview)⟩ : Call DaemonCall _) ∈ calls ∧
      ran calls = [simulateCommand live] ∧ judgeAutoremove preview live = .ok ()
  deployment : r.actionName = "PinDeployment" ∨ r.actionName = "UnpinDeployment" →
    ∃ preview index live,
      (⟨.getPreview r.transactionId, .ok (some preview)⟩ : Call DaemonCall _) ∈ calls ∧
        (r.params.get "index").bind Value.asU64 = some index ∧
        ran calls = [statusCommand live] ∧ judgeDeployment d index preview live = .ok ()

/-- When a request may make a call, as far as its evidence goes. -/
def Evidence (d : Daemon) (req : Request) (calls : List (Call DaemonCall DaemonCall.Answer)) :
    DaemonCall → Prop
  | .runCommand _ _ => ran calls = []
  | .recordPreviewed tx preview => ∃ r, req = .preview r ∧ tx.actionName = r.actionName ∧
      ∃ request state change, preview.proposedChange =
        (d.previewAction request state change).proposedChange ∧ Captured d r calls change
  | .executeWithProgress spec => ∃ r, req = .execute r ∧
      d.buildActionSpec r.actionName r.params = .ok spec ∧
      (∃ digest executor, (⟨.claimApprovedForExecution r.transactionId digest executor, .ok true⟩ :
        Call DaemonCall _) ∈ calls) ∧ Rechecked d r calls
  | _ => True

/-- The automaton of the evidence. -/
abbrev evidence (d : Daemon) : Monitor DaemonCall DaemonCall.Answer := .recording (Evidence d)

/-! ### The handlers' calls -/

section Plain

variable {α β : Type}

/-- A handler, or a part of one, that makes plain calls only. -/
abbrev Plain (p : Handler α) : Prop := p.Only fun op => op.plain = true

theorem plain_sendResponse (response : DaemonResponse) : Plain (sendResponse response) :=
  Prog.only_perform rfl

theorem plain_sendBestEffort (response : DaemonResponse) : Plain (sendBestEffort response) :=
  (plain_sendResponse response).bind fun _ => trivial

theorem plain_sendLines (jobId : String) (lines : List String) : Plain (sendLines jobId lines) := by
  induction lines with
  | nil => trivial
  | cons line rest ih => exact (plain_sendBestEffort _).bind fun _ => ih

theorem plain_callerOwnsTransaction (caller : CallerAttribution) (t : String) :
    Plain (callerOwnsTransaction caller t) := by
  unfold callerOwnsTransaction
  split_ifs
  · trivial
  · refine Prog.only_perform_bind rfl fun answer => ?_
    match answer with
    | .error e => trivial
    | .ok none => trivial
    | .ok (some row) =>
      simp only
      cases row.callerPrincipal with
      | none => trivial
      | some owner => trivial

theorem plain_authorizeForTransaction (d : Daemon) (r : TransactionRequest)
    (category message : String) : Plain (authorizeForTransaction d r category message) := by
  -- `k` stands for what the function does with the outcome of the message
  have hrefuse (category message : String) (k : Outcome → Handler (Except HandlerError Bool))
      (hk : ∀ o, Plain (k o)) : Plain (sendError r.requestId category message >>= k) :=
    (plain_sendResponse _).bind hk
  refine Prog.only_perform_bind rfl fun answer => ?_
  rcases answer with e | _ | tx
  · exact hrefuse _ _ _ fun o => by cases o <;> trivial
  · exact hrefuse _ _ _ fun o => by cases o <;> trivial
  · refine (plain_callerOwnsTransaction _ _).bind fun ownership => ?_
    cases ownership with
    | notOwned => exact hrefuse _ _ _ fun o => by cases o <;> trivial
    | cannotEstablish message => exact hrefuse _ _ _ fun o => by cases o <;> trivial
    | _ =>
      dsimp only
      split_ifs
      · trivial
      · exact hrefuse _ _ _ fun o => by cases o <;> trivial

theorem plain_handleApprove (d : Daemon) (r : TransactionRequest) : Plain (handleApprove d r) := by
  refine (plain_authorizeForTransaction d r _ _).bind fun authorized => ?_
  match authorized with
  | .error e => trivial
  | .ok false => trivial
  | .ok true =>
    refine Prog.only_perform_bind rfl fun answer => ?_
    match answer with
    | .error e => cases e <;> exact plain_sendResponse _
    | .ok none => exact plain_sendResponse _
    | .ok (some receipt) =>
      refine (plain_sendResponse _).bind fun response => ?_
      match response with
      | .ok () => trivial
      | .error e => exact Prog.only_perform_bind rfl fun _ => trivial

theorem plain_handleCancel (d : Daemon) (r : TransactionRequest) : Plain (handleCancel d r) := by
  refine (plain_authorizeForTransaction d r _ _).bind fun authorized => ?_
  match authorized with
  | .error e => trivial
  | .ok false => trivial
  | .ok true =>
    refine Prog.only_perform_bind rfl fun answer => ?_
    match answer with
    | .ok true | .ok false => exact plain_sendResponse _
    | .error e => exact plain_sendResponse _

theorem plain_attemptTerminalStatus {t : String} {target : JobState}
    {giveUp : StoreError → Handler (Except StoreError Unit)} (h : ∀ e, Plain (giveUp e)) :
    Plain (attemptTerminalStatus t target giveUp) := by
  refine Prog.only_perform_bind rfl fun answer => ?_
  match answer with
  | .ok () => trivial
  | .error e =>
    refine Prog.only_perform_bind rfl fun answer => ?_
    match answer with
    | .error _ | .ok none => exact h e
    | .ok (some record) =>
      simp only
      split_ifs
      · trivial
      · exact h e

theorem plain_updateTerminalStatus (t : String) (target : JobState) :
    Plain (updateTerminalStatus t target) := by
  unfold updateTerminalStatus
  generalize terminalStatusRetryAttempts - 1 = retries
  induction retries with
  | zero => exact plain_attemptTerminalStatus fun _ => trivial
  | succ retries ih => exact plain_attemptTerminalStatus fun _ => ih

theorem plain_attemptRollbackIfNeeded (jobId actionName : String) (spec : ActionSpec)
    (status : JobState) (summary : String) (running : Bool) :
    Plain (attemptRollbackIfNeeded jobId actionName spec status summary running) := by
  unfold attemptRollbackIfNeeded
  split_ifs
  · trivial
  · exact (plain_sendBestEffort _).bind fun _ => trivial
  · split
    · trivial
    · refine (plain_sendBestEffort _).bind fun _ => Prog.only_perform_bind rfl fun answer => ?_
      match answer with
      | .error e => exact (plain_sendBestEffort _).bind fun _ => trivial
      | .ok out =>
        simp only
        split_ifs
        · exact (plain_sendBestEffort _).bind fun _ => trivial
        · exact (plain_sendBestEffort _).bind fun _ => trivial

variable (d : Daemon) (r : ExecuteRequest) (spec : ActionSpec)

theorem plain_executeFinish (jobId : String) (output : ExecutionResult) :
    Plain (executeFinish d r spec jobId output) := by
  refine (plain_sendBestEffort _).bind fun _ => ?_
  refine (plain_attemptRollbackIfNeeded _ _ _ _ _ _).bind fun o => ?_
  have hrest (warnings : Except Store.StoreError Unit → List String) :
      Plain (updateTerminalStatus r.transactionId o.1 >>= fun written =>
        sendResponse (.jobCompleted jobId ⟨jobStateStr o.1, o.2.1, warnings written, jobId,
          o.1 == .needsReboot, o.2.2, r.transactionId⟩)) :=
    (plain_updateTerminalStatus _ _).bind fun _ => plain_sendResponse _
  cases mayStillBeRunning output with
  | true => exact hrest _
  | false => exact Prog.only_perform_bind rfl fun _ => hrest _

end Plain

section Obeys

variable {d : Daemon} {req : Request} {α β : Type}

/-- Plain calls need no evidence and add none. -/
theorem plain_step (req : Request) (seen : List (String × List String × Except String String))
    (s : (evidence d).State) (op : DaemonCall)
    (hs : s.1 = req ∧ ran s.2 = seen) (hop : op.plain = true) :
    (evidence d).allowed s op ∧
      ∀ answer, ((evidence d).next s op answer).1 = req ∧
        ran ((evidence d).next s op answer).2 = seen := by
  refine ⟨?_, fun answer => ⟨hs.1, (ran_concat_of_plain _ hop answer).trans hs.2⟩⟩
  cases op with
  | runCommand | recordPreviewed | executeWithProgress => cases hop
  | _ => trivial

theorem obeys_of_plain {p : Handler α} (hp : Plain p) (s : (evidence d).State) :
    (evidence d).Obeys (fun _ _ => True) p s :=
  (hp.obeys (plain_step s.1 (ran s.2)) ⟨rfl, rfl⟩).mono fun _ _ _ => trivial

/-- A plain beginning leaves a request that has run nothing as it was. -/
theorem obeys_plain_bind {p : Handler α} {f : α → Handler β} (hp : Plain p)
    {calls : List (Call DaemonCall DaemonCall.Answer)} (hcalls : ran calls = [])
    (hf : ∀ calls a, ran calls = [] → (evidence d).Obeys (fun _ _ => True) (f a) (req, calls)) :
    (evidence d).Obeys (fun _ _ => True) (p >>= f) (req, calls) :=
  Prog.Only.obeys_bind (M := evidence d) (I := fun s => s.1 = req ∧ ran s.2 = []) hp
    (plain_step req []) ⟨rfl, hcalls⟩
    fun s a hs => (by
      obtain ⟨req', calls⟩ := s
      obtain ⟨rfl, hnone⟩ := hs
      exact hf calls a hnone)

/-! ### Previews -/

section Preview

variable {v : PreviewRequest} {calls : List (Call DaemonCall DaemonCall.Answer)}
  {post : (evidence d).State → α → Prop}

/-- The members that may be added to a proposed change, and the command they are read off. -/
def Added (d : Daemon) (v : PreviewRequest) (calls : List (Call DaemonCall DaemonCall.Answer))
    (members : List (String × Value)) : Prop :=
  members = [] ∨
    (∃ out, ran calls = [simulateCommand (.ok out)] ∧
      members = [(autoremoveRemovalsKey, .arr ((parseAutoremoveRemovals out).map .str))]) ∨
    ∃ out index checksum, ran calls = [statusCommand (.ok out)] ∧
      (v.params.get "index").bind Value.asU64 = some index ∧
      parseDeploymentIdentity d out (index % 2 ^ 32) = .ok checksum ∧
      members = [(deploymentIdentityKey, .str checksum)]

/-- A removal set is captured from a simulation, and only then is a command run. -/
theorem obeys_captureAutoremove_evidence
    {f : List (String × Value) × Option String → Handler α} (hcalls : ran calls = [])
    (h : ∀ members warning calls, Added d v calls members →
      (v.actionName ≠ "AptAutoremove" → members = [] ∧ ran calls = []) →
      (evidence d).Obeys post (f (members, warning)) (.preview v, calls)) :
    (evidence d).Obeys post (captureAutoremove v >>= f) (.preview v, calls) := by
  unfold captureAutoremove
  split_ifs with haction
  · refine Monitor.obeys_bind (Monitor.obeys_bind (Monitor.obeys_perform_bind hcalls fun out => ?_))
    have hran : ran (calls ++ [⟨.runCommand "apt-get" ["-s", "autoremove"], out⟩]) =
        [simulateCommand out] := by
      rw [ran_concat_runCommand, hcalls]
      rfl
    cases out with
    | error e => exact h _ _ _ (.inl rfl) fun hne => absurd haction hne
    | ok out => exact h _ _ _ (.inr (.inl ⟨out, hran, rfl⟩)) fun hne => absurd haction hne
  · exact h _ _ calls (.inl rfl) fun _ => ⟨rfl, hcalls⟩

/-- An identity is captured from the status of the deployments. -/
theorem obeys_captureDeployment_evidence
    {f : List (String × Value) × Option String → Handler α}
    (hcalls : v.actionName = "PinDeployment" ∨ v.actionName = "UnpinDeployment" → ran calls = [])
    (hother : ∀ warning, (evidence d).Obeys post (f ([], warning)) (.preview v, calls))
    (h : ∀ members warning calls,
      v.actionName = "PinDeployment" ∨ v.actionName = "UnpinDeployment" →
      Added d v calls members →
        (evidence d).Obeys post (f (members, warning)) (.preview v, calls)) :
    (evidence d).Obeys post (captureDeployment d v >>= f) (.preview v, calls) := by
  unfold captureDeployment
  split_ifs with haction
  · split
    · rename_i index hindex
      have hnone := hcalls haction
      refine Monitor.obeys_bind (Monitor.obeys_bind
        (Monitor.obeys_perform_bind hnone fun out => ?_))
      have hran : ran (calls ++ [⟨.runCommand "rpm-ostree" ["status", "--json"], out⟩]) =
          [statusCommand out] := by
        rw [ran_concat_runCommand, hnone]
        rfl
      cases hidentity : deploymentIdentity d (index % 2 ^ 32) out with
      | error e => exact h _ _ _ haction (.inl rfl)
      | ok checksum =>
        cases out with
        | error e => cases hidentity
        | ok out =>
          exact h _ _ _ haction (.inr (.inr ⟨out, index, checksum, hran, hindex, hidentity, rfl⟩))
    · exact hother _
  · exact hother _

/-- The two members a proposed change may gain differ in their names, and from the others. -/
theorem captured_of_added {members : List (String × Value)} {action params : Value}
    (h : Added d v calls members) :
    Captured d v calls (.obj ([("action", action), ("params", params)] ++ members)) := by
  have hget (key : String) (haction : key ≠ "action") (hparams : key ≠ "params") :
      (Value.obj ([("action", action), ("params", params)] ++ members)).get key =
        (Value.obj members).get key := by
    have haction : (key == "action") = false := beq_eq_false_iff_ne.mpr haction
    have hparams : (key == "params") = false := beq_eq_false_iff_ne.mpr hparams
    simp only [Value.get, List.cons_append, List.nil_append, List.lookup_cons, haction, hparams]
  constructor
  · intro w hw
    rw [hget _ (by decide) (by decide)] at hw
    rcases h with rfl | ⟨out, hran, rfl⟩ | ⟨out, index, checksum, -, -, -, rfl⟩
    · cases hw
    · exact ⟨out, hran, (Option.some.inj hw).symm⟩
    · cases hw
  · intro w hw
    rw [hget _ (by decide) (by decide)] at hw
    rcases h with rfl | ⟨out, -, rfl⟩ | ⟨out, index, checksum, hran, hindex, hidentity, rfl⟩
    · cases hw
    · cases hw
    · exact ⟨out, index, checksum, hran, hindex, hidentity, (Option.some.inj hw).symm⟩

theorem obeys_handlePreview_evidence :
    (evidence d).Obeys (fun _ _ => True) (handlePreview d v) (.preview v, []) := by
  have hrefuse (category message : String) (s : (evidence d).State) :
      (evidence d).Obeys (fun _ _ => True) (sendError v.requestId category message) s :=
    obeys_of_plain (plain_sendResponse _) s
  unfold handlePreview
  split
  · exact hrefuse _ _ _
  split
  · exact hrefuse _ _ _
  split
  · exact hrefuse _ _ _
  refine Monitor.obeys_perform_bind trivial fun collected => ?_
  refine obeys_captureAutoremove_evidence rfl fun removals warning calls hadded hsame => ?_
  refine obeys_captureDeployment_evidence (fun haction => (hsame ?_).2) (fun warning' => ?_)
    fun identity warning' calls' haction hadded' => ?_
  · rcases haction with h | h <;> rw [h] <;> decide
  · refine Monitor.obeys_perform_bind ⟨v, rfl, rfl, _, _, _, rfl, ?_⟩ fun answer => ?_
    · rw [List.append_nil]
      exact captured_of_added hadded
    · match answer with
      | .error e => exact hrefuse _ _ _
      | .ok recorded => exact obeys_of_plain (plain_sendResponse _) _
  · have hother : v.actionName ≠ "AptAutoremove" := by
      rcases haction with h | h <;> rw [h] <;> decide
    obtain ⟨rfl, -⟩ := hsame hother
    refine Monitor.obeys_perform_bind ⟨v, rfl, rfl, _, _, _, rfl, ?_⟩ fun answer => ?_
    · rw [List.append_nil]
      exact captured_of_added hadded'
    · match answer with
      | .error e => exact hrefuse _ _ _
      | .ok recorded => exact obeys_of_plain (plain_sendResponse _) _

end Preview

/-! ### Executions -/

section Execution

variable {r : ExecuteRequest} {spec : ActionSpec}
  {calls : List (Call DaemonCall DaemonCall.Answer)}

variable (d) in
/-- The approval is spent and the effect confirmed. -/
structure Ready (r : ExecuteRequest) (calls : List (Call DaemonCall DaemonCall.Answer)) : Prop where
  claimed : ∃ digest executor, (⟨.claimApprovedForExecution r.transactionId digest executor,
    .ok true⟩ : Call DaemonCall _) ∈ calls
  rechecked : Rechecked d r calls

/-- More calls do not undo it, as long as no command is run. -/
theorem Ready.concat {op : DaemonCall} (h : Ready d r calls) (hop : op.plain = true)
    (answer : op.Answer) : Ready d r (calls ++ [⟨op, answer⟩]) := by
  refine ⟨?_, fun haction => ?_, fun haction => ?_⟩
  · obtain ⟨digest, executor, hmem⟩ := h.claimed
    exact ⟨digest, executor, List.mem_append_left _ hmem⟩
  · obtain ⟨preview, live, hmem, hran, hjudge⟩ := h.rechecked.autoremove haction
    exact ⟨preview, live, List.mem_append_left _ hmem, by rw [ran_concat_of_plain _ hop, hran],
      hjudge⟩
  · obtain ⟨preview, index, live, hmem, hindex, hran, hjudge⟩ := h.rechecked.deployment haction
    exact ⟨preview, index, live, List.mem_append_left _ hmem, hindex,
      by rw [ran_concat_of_plain _ hop, hran], hjudge⟩

theorem obeys_ready_bind {p : Handler α} {f : α → Handler β} (hp : Plain p) (h : Ready d r calls)
    (hf : ∀ calls a, Ready d r calls →
      (evidence d).Obeys (fun _ _ => True) (f a) (.execute r, calls)) :
    (evidence d).Obeys (fun _ _ => True) (p >>= f) (.execute r, calls) := by
  refine Prog.Only.obeys_bind (M := evidence d) (I := fun s => s.1 = .execute r ∧ Ready d r s.2) hp
    (fun s op hs hop => ?_) ⟨rfl, h⟩ fun s a hs => ?_
  · exact ⟨(plain_step _ (ran s.2) s op ⟨hs.1, rfl⟩ hop).1,
      fun answer => ⟨hs.1, hs.2.concat hop answer⟩⟩
  · obtain ⟨req', calls⟩ := s
    obtain ⟨rfl, hready⟩ := hs
    exact hf calls a hready

/-- Once the effect is confirmed, the action may start, and nothing that follows needs
evidence. -/
theorem obeys_executeStart_evidence (hspec : d.buildActionSpec r.actionName r.params = .ok spec)
    (h : Ready d r calls) :
    (evidence d).Obeys (fun _ _ => True) (executeStart d r spec) (.execute r, calls) := by
  refine obeys_ready_bind (Prog.only_perform rfl) h fun calls jobId h => ?_
  refine obeys_ready_bind (plain_sendResponse _) h fun calls o h => ?_
  match o with
  | .error e =>
    have hrest : Plain (do
        let _ ← updateTerminalStatus r.transactionId .failed
        return (.error e : Outcome)) := (plain_updateTerminalStatus _ _).bind fun _ => trivial
    exact obeys_of_plain (Prog.only_perform_bind rfl fun _ => hrest) _
  | .ok () =>
    refine obeys_ready_bind (plain_sendBestEffort _) h fun calls _ h => ?_
    refine obeys_ready_bind (plain_sendBestEffort _) h fun calls _ h => ?_
    refine Monitor.obeys_perform_bind ⟨r, rfl, hspec, h.claimed, h.rechecked⟩ fun _ => ?_
    refine obeys_of_plain (Prog.only_perform_bind rfl fun answer => ?_) _
    obtain ⟨lines, output⟩ := answer
    exact (plain_sendLines _ _).bind fun _ => plain_executeFinish d r spec jobId output

/-- The re-check of an autoremove lets through what its two answers confirm. -/
theorem obeys_recheckAutoremove_evidence {f : Except Refusal Unit → Handler α}
    {post : (evidence d).State → α → Prop} (hcalls : ran calls = [])
    (hrefused : ∀ refusal s, (evidence d).Obeys post (f (.error refusal)) s)
    (hpassed : ∀ calls', calls ⊆ calls' → (r.actionName ≠ "AptAutoremove" → ran calls' = []) →
      (r.actionName = "AptAutoremove" → ∃ preview live,
        (⟨.getPreview r.transactionId, .ok (some preview)⟩ : Call DaemonCall _) ∈ calls' ∧
          ran calls' = [simulateCommand live] ∧ judgeAutoremove preview live = .ok ()) →
      (evidence d).Obeys post (f (.ok ())) (.execute r, calls')) :
    (evidence d).Obeys post (recheckAutoremove r >>= f) (.execute r, calls) := by
  unfold recheckAutoremove
  split_ifs with haction
  · refine Monitor.obeys_bind (Monitor.obeys_perform_bind trivial fun preview => ?_)
    have hnone := (ran_concat_of_plain (.getPreview r.transactionId) rfl preview).trans hcalls
    match preview with
    | .error e => exact hrefused _ _
    | .ok none => exact hrefused _ _
    | .ok (some preview) =>
      refine Monitor.obeys_perform_bind hnone fun live => ?_
      cases hjudge : judgeAutoremove preview live with
      | error refusal => exact hrefused _ _
      | ok u =>
        refine hpassed _ (fun c hc => by simp [hc]) (fun hne => absurd haction hne) fun _ =>
          ⟨preview, live, by simp, ?_, hjudge⟩
        rw [ran_concat_runCommand, hnone]
        rfl
  · exact hpassed calls (fun c hc => hc) (fun _ => hcalls) fun h => absurd h haction

/-- The same for the deployment at an index. -/
theorem obeys_recheckDeployment_evidence {f : Except Refusal Unit → Handler α}
    {post : (evidence d).State → α → Prop}
    (hcalls : r.actionName = "PinDeployment" ∨ r.actionName = "UnpinDeployment" → ran calls = [])
    (hrefused : ∀ refusal s, (evidence d).Obeys post (f (.error refusal)) s)
    (hother : ¬ (r.actionName = "PinDeployment" ∨ r.actionName = "UnpinDeployment") →
      (evidence d).Obeys post (f (.ok ())) (.execute r, calls))
    (hpassed : ∀ calls', calls ⊆ calls' →
      (r.actionName = "PinDeployment" ∨ r.actionName = "UnpinDeployment") →
      (∃ preview index live,
        (⟨.getPreview r.transactionId, .ok (some preview)⟩ : Call DaemonCall _) ∈ calls' ∧
          (r.params.get "index").bind Value.asU64 = some index ∧
          ran calls' = [statusCommand live] ∧ judgeDeployment d index preview live = .ok ()) →
      (evidence d).Obeys post (f (.ok ())) (.execute r, calls')) :
    (evidence d).Obeys post (recheckDeployment d r >>= f) (.execute r, calls) := by
  unfold recheckDeployment
  split_ifs with haction
  · refine Monitor.obeys_bind (Monitor.obeys_perform_bind trivial fun preview => ?_)
    have hnone := (ran_concat_of_plain (.getPreview r.transactionId) rfl preview).trans
      (hcalls haction)
    match preview with
    | .error e => exact hrefused _ _
    | .ok none => exact hrefused _ _
    | .ok (some preview) =>
      simp only [approvedPreview]
      cases hindex : (r.params.get "index").bind Value.asU64 with
      | none => exact hrefused _ _
      | some index =>
        refine Monitor.obeys_perform_bind hnone fun live => ?_
        cases hjudge : judgeDeployment d index preview live with
        | error refusal => exact hrefused _ _
        | ok u =>
          refine hpassed _ (fun c hc => by simp [hc]) haction
            ⟨preview, index, live, by simp, hindex, ?_, hjudge⟩
          rw [ran_concat_runCommand, hnone]
          rfl
  · exact hother haction

theorem obeys_executeClaimed_evidence
    (hspec : d.buildActionSpec r.actionName r.params = .ok spec) (hcalls : ran calls = [])
    (hclaimed : ∃ digest executor, (⟨.claimApprovedForExecution r.transactionId digest executor,
      .ok true⟩ : Call DaemonCall _) ∈ calls) :
    (evidence d).Obeys (fun _ _ => True) (executeClaimed d r spec) (.execute r, calls) := by
  obtain ⟨digest, executor, hmem⟩ := hclaimed
  have hrefuse (refusal : Refusal) (s : (evidence d).State) :
      (evidence d).Obeys (fun _ _ => True)
        (releaseExclusiveSlots d r spec >>= fun _ => sendError r.requestId refusal.1 refusal.2) s :=
    obeys_of_plain (Prog.only_perform_bind rfl fun _ => plain_sendResponse _) s
  refine obeys_recheckAutoremove_evidence hcalls hrefuse fun calls₁ hsub₁ hnone hauto => ?_
  refine obeys_recheckDeployment_evidence (fun haction => hnone ?_) hrefuse (fun hother => ?_)
    fun calls₂ hsub₂ haction hdeployment => ?_
  · rcases haction with h | h <;> rw [h] <;> decide
  · exact obeys_executeStart_evidence hspec
      ⟨⟨digest, executor, hsub₁ hmem⟩, hauto, fun haction => absurd haction hother⟩
  · have hne : r.actionName ≠ "AptAutoremove" := by
      rcases haction with h | h <;> rw [h] <;> decide
    exact obeys_executeStart_evidence hspec
      ⟨⟨digest, executor, hsub₂ (hsub₁ hmem)⟩, fun haction => absurd haction hne,
        fun _ => hdeployment⟩

theorem obeys_executeAdmitted_evidence
    (hspec : d.buildActionSpec r.actionName r.params = .ok spec) (hcalls : ran calls = []) :
    (evidence d).Obeys (fun _ _ => True) (executeAdmitted d r spec) (.execute r, calls) := by
  have hrefuse (category message : String) (s : (evidence d).State) :
      (evidence d).Obeys (fun _ _ => True)
        (releaseExclusiveSlots d r spec >>= fun _ => sendError r.requestId category message) s :=
    obeys_of_plain (Prog.only_perform_bind rfl fun _ => plain_sendResponse _) s
  refine Monitor.obeys_perform_bind trivial fun answer => ?_
  match answer with
  | .error e => exact hrefuse _ _ _
  | .ok false => exact hrefuse _ _ _
  | .ok true =>
    exact obeys_executeClaimed_evidence hspec
      ((ran_concat_of_plain (.claimApprovedForExecution _ _ _) rfl _).trans hcalls)
      ⟨_, _, List.mem_append_right _ (List.mem_singleton.mpr rfl)⟩

theorem obeys_handleExecute_evidence :
    (evidence d).Obeys (fun _ _ => True) (handleExecute d r) (.execute r, []) := by
  have hrefuse (response : DaemonResponse) (s : (evidence d).State) :
      (evidence d).Obeys (fun _ _ => True) (sendResponse response) s :=
    obeys_of_plain (plain_sendResponse _) s
  unfold handleExecute
  split
  · exact hrefuse _ _
  rename_i spec hspec
  refine obeys_plain_bind (plain_callerOwnsTransaction _ _) rfl fun calls ownership hnone => ?_
  have hauthorized : (evidence d).Obeys (fun _ _ => True) (executeAuthorized d r spec)
      (.execute r, calls) := by
    unfold executeAuthorized
    split
    · exact hrefuse _ _
    split
    · exact hrefuse _ _
    refine obeys_plain_bind (Prog.only_perform rfl) hnone fun calls answer hnone => ?_
    match answer with
    | .error e => exact hrefuse _ _
    | .ok none => exact hrefuse _ _
    | .ok (some priorTx) =>
      simp only
      split_ifs
      · exact hrefuse _ _
      · unfold executeGate
        split_ifs
        · refine obeys_plain_bind (Prog.only_perform rfl) hnone fun calls answer hnone => ?_
          match answer with
          | some (resource, runningHash) => exact hrefuse _ _
          | none => exact obeys_executeAdmitted_evidence hspec hnone
        · exact obeys_executeAdmitted_evidence hspec hnone
  match ownership with
  | .notOwned => exact hrefuse _ _
  | .cannotEstablish message => exact hrefuse _ _
  | .owned => exact hauthorized
  | .noSuchTransaction => exact hauthorized

end Execution

/-- **No preview is recorded and no action started without its evidence.** -/
theorem evidences (d : Daemon) (req : Request) :
    (evidence d).Obeys (fun _ _ => True) (d.handle req) (req, []) := by
  have hend {α : Type} {p : Handler α} (h : (evidence d).Obeys (fun _ _ => True) p (req, [])) :
      (evidence d).Obeys (fun _ _ => True) (do let _ ← p) (req, []) :=
    Monitor.obeys_bind (h.mono fun _ _ _ => trivial)
  cases req with
  | preview v => exact hend obeys_handlePreview_evidence
  | approve r => exact hend (obeys_of_plain (plain_handleApprove d r) _)
  | revokeApproval r => exact Monitor.obeys_perform_bind trivial fun _ => trivial
  | execute r => exact hend obeys_handleExecute_evidence
  | cancel r => exact hend (obeys_of_plain (plain_handleCancel d r) _)
  | cleanup => exact Monitor.obeys_perform_bind trivial fun _ => trivial

end Obeys

end Sysknife.Dispatcher
