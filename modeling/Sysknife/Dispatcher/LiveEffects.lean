import Mathlib.Data.Finset.Basic
import Sysknife.Actions.Catalogue
import Sysknife.Dispatcher.Evidence
import Sysknife.Dispatcher.Binding

/-!
# The effect that runs is the effect that was approved

An autoremove, and an action on the deployment at an index, take their effect from the host when
they run. The preview that is stored for a transaction is the one that was recorded with it
(`Kept`), so the evidence of `Dispatcher.Evidence` ties what an execution saw to what the preview
saw: the same deployment (`effects_bound`), and the same `Remv` lines. A package that `apt-get`
announces in a `Purg` line is read by neither side, so the announced sets agree exactly when the
purged packages do.
-/

namespace Sysknife.Dispatcher

open Store Tables

/-! ### Stored previews -/

section Serve

variable {d : Daemon} {env : StoreEnv} {w : World} {choice : Choice}

/-- Every stored preview belongs to a recorded transaction. -/
def PreviewsKnown (s : Tables) : Prop :=
  ∀ t preview, s.getPreview t = some preview → (s.fetchChainRow t).isSome = true

theorem previews_of_recordPreviewed {clock : Clock} {t : String} {tx : NewTransaction}
    {preview : PreviewEnvelope} {s s' : Tables} {record : TransactionRecord}
    (h : recordPreviewed env clock t tx preview s = .ok (record, s')) :
    s'.previews = s.previews ++ [(t, preview)] := by
  obtain ⟨key, -, h⟩ := exists_of_bind_eq_ok h
  obtain ⟨⟨record', s₁⟩, hinsert, h⟩ := exists_of_bind_eq_ok h
  obtain ⟨-, rfl⟩ := Prod.mk.inj (Except.ok.inj h)
  unfold insertTransaction at hinsert
  split_ifs at hinsert
  obtain ⟨-, rfl⟩ := Prod.mk.inj (Except.ok.inj hinsert)
  rfl

/-- A preview is stored by recording it, under an identifier that had none, and by nothing
else. -/
theorem getPreview_serve (hs : PreviewsKnown w.store) (op : DaemonCall) (t : String) :
    ((w.serve env choice op).2.store.getPreview t = w.store.getPreview t ∧
        ∀ tx preview record, (⟨op, (w.serve env choice op).1⟩ : Call DaemonCall DaemonCall.Answer) =
          ⟨.recordPreviewed tx preview, .ok record⟩ → record.transactionId ≠ t) ∨
      ∃ tx preview record, (⟨op, (w.serve env choice op).1⟩ : Call DaemonCall DaemonCall.Answer) =
          ⟨.recordPreviewed tx preview, .ok record⟩ ∧ record.transactionId = t ∧
        w.store.getPreview t = none ∧
        (w.serve env choice op).2.store.getPreview t = some preview := by
  by_cases hop : ∃ tx preview, op = .recordPreviewed tx preview
  · obtain ⟨tx, preview, rfl⟩ := hop
    rcases commit_cases w choice (recordPreviewed env choice.clock choice.uuid tx preview) with
      ⟨e, heq⟩ | ⟨record, s, hrecord, heq⟩
    · refine .inl ⟨by simp only [World.serve, heq], fun tx' preview' record hcall => ?_⟩
      rw [show w.serve env choice (.recordPreviewed tx preview) = (.error e, w) from heq] at hcall
      cases hcall
    · obtain ⟨hid, hrow, -⟩ := recordPreviewed_spec hrecord
      have hlookup : s.getPreview t =
          (w.store.getPreview t).or (List.lookup t [(choice.uuid, preview)]) := by
        rw [getPreview, previews_of_recordPreviewed hrecord, List.lookup_append]
        rfl
      have hserve : w.serve env choice (.recordPreviewed tx preview) =
          (.ok record, { w with store := s }) := heq
      rw [hserve]
      by_cases ht : t = choice.uuid
      · subst ht
        have hnone : w.store.getPreview choice.uuid = none := by
          cases hpreview : w.store.getPreview choice.uuid with
          | none => rfl
          | some preview' =>
            have hknown := hs _ _ hpreview
            rw [hrow] at hknown
            cases hknown
        refine .inr ⟨tx, preview, record, rfl, hid, hnone, ?_⟩
        simpa [hnone] using hlookup
      · refine .inl ⟨?_, fun tx' preview' record' hcall => ?_⟩
        · simpa [List.lookup_cons, beq_eq_false_iff_ne.mpr ht] using hlookup
        · cases hcall
          rw [hid]
          exact Ne.symm ht
  · have hsame : w.store.SameRecords (w.serve env choice op).2.store :=
      sameRecords_serve fun tx preview heq => hop ⟨tx, preview, heq⟩
    refine .inl ⟨by rw [getPreview, hsame.previews, getPreview], fun tx preview record hcall => ?_⟩
    exact absurd ⟨tx, preview, (Sigma.mk.inj hcall).1⟩ hop

theorem previewsKnown_serve (hs : PreviewsKnown w.store) (op : DaemonCall) :
    PreviewsKnown (w.serve env choice op).2.store := by
  intro t preview hpreview
  rcases getPreview_serve hs op t with ⟨hsame, -⟩ | ⟨tx, preview', record, hcall, hid, -⟩
  · obtain ⟨row, hrow⟩ := Option.isSome_iff_exists.mp (hs t preview (hsame ▸ hpreview))
    rw [fetchChainRow_serve_of_some hrow]
    rfl
  · obtain ⟨rfl, hanswer⟩ := Sigma.mk.inj hcall
    rcases recordPreviewed_serve env w choice tx preview' with
      ⟨e, heq⟩ | ⟨record', s, row, heq, hid', -, hrow, -⟩
    · rw [heq] at hanswer
      cases hanswer
    · rw [heq] at hanswer ⊢
      obtain rfl := Except.ok.inj (eq_of_heq hanswer)
      rw [← hid, hid', hrow]
      rfl

/-- Stored previews stay. -/
theorem getPreview_serve_of_some (hs : PreviewsKnown w.store) (op : DaemonCall) {t : String}
    {preview : PreviewEnvelope} (h : w.store.getPreview t = some preview) :
    (w.serve env choice op).2.store.getPreview t = some preview := by
  rcases getPreview_serve hs op t with ⟨hsame, -⟩ | ⟨_, _, _, -, -, hnone, -⟩
  · exact hsame.trans h
  · rw [h] at hnone
    cases hnone

end Serve

/-! ### The invariant -/

section Kept

variable {d : Daemon}

/-- The process recorded the transaction with this preview. -/
def RecordedWith (q : d.system.Process) (t : String) (preview : PreviewEnvelope) : Prop :=
  ∃ tx record, (⟨.recordPreviewed tx preview, .ok record⟩ : Call DaemonCall _) ∈ q.history ∧
    record.transactionId = t

/-- **The stored preview of a transaction is the recorded one**, and what was read of it. -/
structure Kept (c : d.system.Config) : Prop where
  known : PreviewsKnown c.world.store
  origin : ∀ t preview, c.world.store.getPreview t = some preview →
    ∃ (i : ℕ) (q : d.system.Process), c.procs[i]? = some q ∧ RecordedWith q t preview
  recorded : ∀ (i : ℕ) (q : d.system.Process) t preview, c.procs[i]? = some q →
    RecordedWith q t preview → c.world.store.getPreview t = some preview
  read : ∀ (i : ℕ) (q : d.system.Process) t preview, c.procs[i]? = some q →
    (⟨.getPreview t, .ok (some preview)⟩ : Call DaemonCall _) ∈ q.history →
      c.world.store.getPreview t = some preview

theorem kept_initial : Kept (⟨.initial, []⟩ : d.system.Config) where
  known t preview h := by cases h
  origin t preview h := by cases h
  recorded i q t preview hq := by simp at hq
  read i q t preview hq := by simp at hq

variable {c : d.system.Config}

theorem Kept.arrive (hc : Kept c) (req : Request) : Kept (c.arrive req) where
  known := hc.known
  origin t preview h := by
    obtain ⟨i, q, hq, hrecorded⟩ := hc.origin t preview h
    exact ⟨i, q, System.getElem?_arrive_of_some hq, hrecorded⟩
  recorded i q t preview hq h := by
    rcases System.getElem?_arrive hq with hq | ⟨-, rfl⟩
    · exact hc.recorded i q t preview hq h
    · obtain ⟨tx, record, hmem, -⟩ := h
      cases hmem
  read i q t preview hq h := by
    rcases System.getElem?_arrive hq with hq | ⟨-, rfl⟩
    · exact hc.read i q t preview hq h
    · cases h

variable {pid : ℕ} {choice : Choice} {p : d.system.Process} {op : DaemonCall}
  {k : op.Answer → Handler Unit}

/-- A call in the history of a process was there, or is the one it just made. -/
theorem mem_history_call (hp : c.procs[pid]? = some p) {i : ℕ} {q : d.system.Process}
    (hq : (c.call pid choice p op k).procs[i]? = some q) {call : Call DaemonCall DaemonCall.Answer}
    (hmem : call ∈ q.history) :
    (∃ q₀, c.procs[i]? = some q₀ ∧ call ∈ q₀.history) ∨
      (i = pid ∧ call = ⟨op, (c.world.serve d.store choice op).1⟩) := by
  by_cases hi : i = pid
  · subst hi
    rw [System.getElem?_call_self hp] at hq
    obtain rfl := Option.some.inj hq
    rcases List.mem_append.mp hmem with hmem | hmem
    · exact .inl ⟨p, hp, hmem⟩
    · exact .inr ⟨rfl, List.mem_singleton.mp hmem⟩
  · rw [System.getElem?_call_of_ne hi] at hq
    exact .inl ⟨q, hq, hmem⟩

theorem Kept.call (hc : Kept c) (hp : c.procs[pid]? = some p) :
    Kept (c.call pid choice p op k) where
  known := previewsKnown_serve hc.known op
  origin t preview h := by
    rcases getPreview_serve hc.known op t with
      ⟨hsame, -⟩ | ⟨tx, preview', record, hcall, hid, -, hnew⟩
    · obtain ⟨i, q, hq, tx, record, hmem, hid⟩ := hc.origin t preview (hsame ▸ h)
      obtain ⟨q', hq', -, hhist⟩ := System.exists_grown_call hp hq
      exact ⟨i, q', hq', tx, record, hhist _ hmem, hid⟩
    · obtain rfl := Option.some.inj (hnew.symm.trans h)
      refine ⟨pid, _, System.getElem?_call_self hp, tx, record, ?_, hid⟩
      rw [← hcall]
      exact List.mem_append_right _ (List.mem_singleton.mpr rfl)
  recorded i q t preview hq h := by
    obtain ⟨tx, record, hmem, hid⟩ := h
    rcases mem_history_call hp hq hmem with ⟨q₀, hq₀, hmem⟩ | ⟨-, hlast⟩
    · exact getPreview_serve_of_some hc.known op (hc.recorded i q₀ t preview hq₀
        ⟨tx, record, hmem, hid⟩)
    · rcases @getPreview_serve d.store c.world choice hc.known op t with
        ⟨-, hother⟩ | ⟨tx', preview', record', hcall, -, -, hnew⟩
      · exact absurd hid (hother tx preview record hlast.symm)
      · obtain ⟨rfl, -⟩ := Sigma.mk.inj hlast
        obtain ⟨-, rfl⟩ := DaemonCall.recordPreviewed.inj (Sigma.mk.inj hcall).1
        exact hnew
  read i q t preview hq h := by
    rcases mem_history_call hp hq h with ⟨q₀, hq₀, hmem⟩ | ⟨-, hlast⟩
    · exact getPreview_serve_of_some hc.known op (hc.read i q₀ t preview hq₀ hmem)
    · obtain ⟨rfl, hanswer⟩ := Sigma.mk.inj hlast
      have hanswer := eq_of_heq hanswer
      simp only [World.serve, World.read] at hanswer
      split at hanswer
      · cases hanswer
      · refine getPreview_serve_of_some hc.known _ ?_
        exact (Except.ok.inj hanswer).symm

theorem kept_run (events : List d.system.Event) : Kept (d.system.run events) :=
  daemon_induction (R := fun _ _ => True) kept_initial (fun _ req hc => hc.arrive req)
    (fun _ _ _ _ _ _ hc _ hp _ _ => hc.call hp) events fun _ _ _ _ => trivial

/-- Whatever a process did, it had the evidence for it when it did it. -/
theorem evidence_of_mem (events : List d.system.Event) {i : ℕ} {q : d.system.Process}
    (hq : (d.system.run events).procs[i]? = some q) {call : Call DaemonCall DaemonCall.Answer}
    (hmem : call ∈ q.history) : ∃ calls calls', q.history = calls ++ call :: calls' ∧
      Evidence d q.request calls call.1 := by
  obtain ⟨calls, calls', hsplit⟩ := List.append_of_mem hmem
  have hallowed := System.history_allowed (evidence d) (fun req => (req, [])) (evidences d) events
    hq hsplit
  rw [Monitor.after_recording] at hallowed
  exact ⟨calls, calls', hsplit, hallowed⟩

/-- A process runs one command at most. -/
theorem ran_history (events : List d.system.Event) {i : ℕ} {q : d.system.Process}
    (hq : (d.system.run events).procs[i]? = some q)
    {calls calls' : List (Call DaemonCall DaemonCall.Answer)} (hsplit : q.history = calls ++ calls')
    {command : String × List String × Except String String} (hran : ran calls = [command]) :
    ran q.history = [command] := by
  have hlater : ran calls' = [] := by
    refine List.eq_nil_iff_forall_not_mem.mpr fun ⟨program, args, answer⟩ hmem => ?_
    obtain ⟨before, after, hsplit'⟩ := List.append_of_mem (mem_of_mem_ran hmem)
    rw [hsplit', ← List.append_assoc] at hsplit
    have hallowed := System.history_allowed (evidence d) (fun req => (req, [])) (evidences d)
      events hq hsplit
    rw [Monitor.after_recording] at hallowed
    have hnone : ran (calls ++ before) = [] := hallowed
    rw [ran_append, hran] at hnone
    cases hnone
  rw [hsplit, ran_append, hran, hlater, List.append_nil]

end Kept

/-! ### What the judgements say -/

section Judge

variable {d : Daemon} {preview : PreviewEnvelope} {live : Except String String}

theorem asStrings_arr_map_str (items : List String) :
    (Value.arr (items.map .str)).asStrings = some items := by
  simp only [Value.asStrings]
  induction items with
  | nil => rfl
  | cons item items ih => simp [ih, Value.asStr]

theorem judgeAutoremove_eq_ok (h : judgeAutoremove preview live = .ok ()) : ∃ out v items,
    live = .ok out ∧ preview.proposedChange.get autoremoveRemovalsKey = some v ∧
      v.asStrings = some items ∧ sortedSet items = parseAutoremoveRemovals out := by
  unfold judgeAutoremove at h
  cases live with
  | error e => cases h
  | ok out =>
    simp only [autoremoveSet, verifyAutoremoveBinding] at h
    cases hget : preview.proposedChange.get autoremoveRemovalsKey with
    | none => simp [hget] at h
    | some v =>
      cases hitems : v.asStrings with
      | none => simp [hget, hitems] at h
      | some items =>
        refine ⟨out, v, items, rfl, rfl, hitems, ?_⟩
        by_contra hne
        simp [hget, hitems, hne] at h

/-- An identity that is found is not empty. -/
theorem parseDeploymentIdentity_ne_empty {statusJson checksum : String} {index : ℕ}
    (h : parseDeploymentIdentity d statusJson index = .ok checksum) : checksum ≠ "" := by
  unfold parseDeploymentIdentity at h
  split at h
  · cases h
  split at h
  · cases h
  split at h
  · cases h
  split at h
  · cases h
  · rename_i hchecksum
    obtain rfl := Except.ok.inj h
    simpa using (Option.filter_eq_some_iff.mp hchecksum).2

theorem judgeDeployment_eq_ok {index : ℕ} (h : judgeDeployment d index preview live = .ok ()) :
    ∃ out checksum, live = .ok out ∧
      parseDeploymentIdentity d out (index % 2 ^ 32) = .ok checksum ∧
      preview.proposedChange.get deploymentIdentityKey = some (.str checksum) := by
  unfold judgeDeployment at h
  generalize index % 2 ^ 32 = n at h ⊢
  cases live with
  | error e => cases h
  | ok out =>
    simp only [deploymentIdentity, verifyDeploymentBinding] at h
    cases hidentity : parseDeploymentIdentity d out n with
    | error e => simp [hidentity] at h
    | ok checksum =>
      refine ⟨out, checksum, rfl, hidentity, ?_⟩
      cases hcaptured : (preview.proposedChange.get deploymentIdentityKey).bind Value.asStr with
      | none => simp [hidentity, hcaptured] at h
      | some captured =>
        have heq : captured = checksum := by
          by_contra hne
          simp [hidentity, hcaptured, hne] at h
        obtain ⟨v, hget, hstr⟩ := Option.bind_eq_some_iff.mp hcaptured
        rw [hget]
        cases v with
        | str s => rw [← heq, Option.some.inj hstr]
        | _ => cases hstr

end Judge

/-! ### What `apt-get` announces -/

/-- The package a line of `apt-get -s autoremove` names after a keyword. -/
def packageOfLine (keyword line : String) : Option String :=
  let rest := line.toList.dropWhile isWhitespace
  if keyword.toList.isPrefixOf rest then
    (wordsBy isWhitespace (String.ofList (rest.drop keyword.length))).head?
  else none

/-- The packages named after a keyword. -/
def packagesOf (keyword out : String) : Finset String :=
  ((lines out).filterMap (packageOfLine keyword)).toFinset

/-- The packages `apt-get -s autoremove` announces that it would delete. -/
def announced (out : String) : Finset String := packagesOf "Remv " out ∪ packagesOf "Purg " out

/-- The packages it announces in `Purg` lines only. -/
def purgedOnly (out : String) : Finset String := packagesOf "Purg " out \ packagesOf "Remv " out

theorem mem_sortedSet {items : List String} {s : String} : s ∈ sortedSet items ↔ s ∈ items := by
  rw [sortedSet, List.mem_dedup, List.mem_mergeSort]

/-- The daemon reads the `Remv` lines. -/
theorem mem_parseAutoremoveRemovals {out package : String} :
    package ∈ parseAutoremoveRemovals out ↔ package ∈ packagesOf "Remv " out := by
  rw [parseAutoremoveRemovals, mem_sortedSet, packagesOf, List.mem_toFinset]
  rfl

/-- Outputs with the same `Remv` packages announce the same exactly when they purge the same. -/
theorem announced_eq_iff {out out' : String}
    (h : packagesOf "Remv " out = packagesOf "Remv " out') :
    announced out = announced out' ↔ purgedOnly out = purgedOnly out' := by
  rw [announced, announced, purgedOnly, purgedOnly, h]
  constructor
  · intro heq
    rw [← Finset.union_sdiff_left, heq, Finset.union_sdiff_left]
  · intro heq
    rw [← Finset.union_sdiff_self_eq_union, heq, Finset.union_sdiff_self_eq_union]

/-! ### The result -/

/-- A daemon with the arms of the catalogue that name a deployment by its index, and with a
`preview_action` that passes the proposed change on. -/
structure Catalogued extends Daemon where
  previewAction_proposedChange : ∀ request state change,
    (toDaemon.previewAction request state change).proposedChange = change
  pinDeployment_arm : toDaemon.buildActionSpec "PinDeployment" = atIndex pinDeployment
  unpinDeployment_arm : toDaemon.buildActionSpec "UnpinDeployment" = atIndex unpinDeployment

section Result

variable {h : Catalogued}

/-- The preview of the transaction was made on this output of `apt-get -s autoremove`. -/
def Simulated {d : Daemon} (c : d.system.Config) (t out : String) : Prop :=
  ∃ (i : ℕ) (q : d.system.Process) (preview : PreviewEnvelope), c.procs[i]? = some q ∧
    RecordedWith q t preview ∧ ran q.history = [simulateCommand (.ok out)]

/-- A captured removal set is that of the output the preview was made on. -/
theorem captured_of_recorded (events : List h.toDaemon.system.Event) {i : ℕ}
    {q : h.toDaemon.system.Process} (hq : (h.toDaemon.system.run events).procs[i]? = some q)
    {t : String} {preview : PreviewEnvelope} (hrecorded : RecordedWith q t preview) {v : Value}
    (hv : preview.proposedChange.get autoremoveRemovalsKey = some v) :
    ∃ out, ran q.history = [simulateCommand (.ok out)] ∧
      v = .arr ((parseAutoremoveRemovals out).map .str) := by
  obtain ⟨tx, record, hmem, -⟩ := hrecorded
  obtain ⟨calls, calls', hsplit, r, -, -, request, state, change, hchange, hcaptured⟩ :=
    evidence_of_mem events hq hmem
  rw [hchange, h.previewAction_proposedChange] at hv
  obtain ⟨out, hran, rfl⟩ := hcaptured.autoremove v hv
  exact ⟨out, ran_history events hq hsplit hran, rfl⟩

/-- **Effects are bound to the approved preview.** In every run, an execution whose action was
started had spent the approval of its transaction. For an autoremove, the approved preview holds
the removals of the output it was made on, and the live output has the same `Remv` packages, so
the announced sets are equal exactly when the packages announced by `Purg` lines only are. For an
action on a deployment, the deployment at the index of the command line has the same, nonempty
checksum as the one the preview holds. -/
theorem effects_bound (h : Catalogued) (events : List h.toDaemon.system.Event) (i : ℕ)
    (p : h.toDaemon.system.Process) (r : ExecuteRequest) (spec : ActionSpec)
    (hp : (h.toDaemon.system.run events).procs[i]? = some p) (hreq : p.request = .execute r)
    (hstarted : (⟨.executeWithProgress spec, ()⟩ : Call DaemonCall DaemonCall.Answer) ∈
      p.history) :
    (∃ digest executor, (⟨.claimApprovedForExecution r.transactionId digest executor, .ok true⟩ :
      Call DaemonCall DaemonCall.Answer) ∈ p.history) ∧
    (r.actionName = "AptAutoremove" → ∃ preview out live,
      (h.toDaemon.system.run events).world.store.getPreview r.transactionId = some preview ∧
      preview.proposedChange.get autoremoveRemovalsKey =
        some (.arr ((parseAutoremoveRemovals out).map .str)) ∧
      Simulated (h.toDaemon.system.run events) r.transactionId out ∧
      ran p.history = [simulateCommand (.ok live)] ∧
      packagesOf "Remv " out = packagesOf "Remv " live ∧
      ∀ out', Simulated (h.toDaemon.system.run events) r.transactionId out' →
        (announced out' = announced live ↔ purgedOnly out' = purgedOnly live)) ∧
    (r.actionName = "PinDeployment" ∨ r.actionName = "UnpinDeployment" →
      ∃ preview index checksum live,
        (h.toDaemon.system.run events).world.store.getPreview r.transactionId = some preview ∧
        preview.proposedChange.get deploymentIdentityKey = some (.str checksum) ∧
        checksum ≠ "" ∧
        (spec.mechanism = .command "sudo" ["ostree", "admin", "pin", toString index] ∨
          spec.mechanism = .command "sudo" ["ostree", "admin", "pin", "--unpin", toString index]) ∧
        ran p.history = [statusCommand (.ok live)] ∧
        parseDeploymentIdentity h.toDaemon live index = .ok checksum) := by
  have hkept := kept_run (d := h.toDaemon) events
  obtain ⟨calls, calls', hsplit, r', hreq', hspec, hclaimed, hrechecked⟩ :=
    evidence_of_mem events hp hstarted
  obtain rfl := Request.execute.inj (hreq.symm.trans hreq')
  have hmem {call : Call DaemonCall DaemonCall.Answer} (hcall : call ∈ calls) :
      call ∈ p.history := by
    rw [hsplit]
    exact List.mem_append_left _ hcall
  refine ⟨?_, fun haction => ?_, fun haction => ?_⟩
  · obtain ⟨digest, executor, hclaim⟩ := hclaimed
    exact ⟨digest, executor, hmem hclaim⟩
  · obtain ⟨preview, live, hread, hran, hjudge⟩ := hrechecked.autoremove haction
    obtain ⟨live, v, items, rfl, hv, hitems, hsame⟩ := judgeAutoremove_eq_ok hjudge
    have hstored := hkept.read i p _ preview hp (hmem hread)
    obtain ⟨j, q, hq, hrecorded⟩ := hkept.origin _ _ hstored
    obtain ⟨out, hout, rfl⟩ := captured_of_recorded events hq hrecorded hv
    rw [asStrings_arr_map_str] at hitems
    obtain rfl := Option.some.inj hitems
    have hremv : packagesOf "Remv " out = packagesOf "Remv " live := by
      ext package
      rw [← mem_parseAutoremoveRemovals, ← mem_parseAutoremoveRemovals, ← hsame, mem_sortedSet]
    refine ⟨preview, out, live, hstored, hv, ⟨j, q, preview, hq, hrecorded, hout⟩,
      ran_history events hp hsplit hran, hremv, fun out' hout' => ?_⟩
    -- whoever recorded the transaction did so with the stored preview
    obtain ⟨j', q', preview', hq', hrecorded', hran'⟩ := hout'
    obtain rfl := Option.some.inj ((hkept.recorded j' q' _ _ hq' hrecorded').symm.trans hstored)
    obtain ⟨out'', hout'', hvalue⟩ := captured_of_recorded events hq' hrecorded' hv
    obtain rfl : out' = out'' := by simpa [simulateCommand] using hran'.symm.trans hout''
    refine announced_eq_iff ?_
    rw [← hremv]
    ext package
    have hlists := congrArg Value.asStrings hvalue
    rw [asStrings_arr_map_str, asStrings_arr_map_str, Option.some.injEq] at hlists
    rw [← mem_parseAutoremoveRemovals, ← mem_parseAutoremoveRemovals, hlists]
  · obtain ⟨preview, index, live, hread, hindex, hran, hjudge⟩ := hrechecked.deployment haction
    obtain ⟨live, checksum, rfl, hidentity, hcaptured⟩ := judgeDeployment_eq_ok hjudge
    have hstored := hkept.read i p _ preview hp (hmem hread)
    have hspec' : ∃ n < 2 ^ 32, (r.params.get "index").bind Value.asU64 = some n ∧
        (spec = pinDeployment n ∨ spec = unpinDeployment n) := by
      rcases haction with haction | haction
      · rw [haction, h.pinDeployment_arm] at hspec
        obtain ⟨n, hlt, hn, heq⟩ := atIndex_eq_ok hspec
        exact ⟨n, hlt, hn, .inl heq⟩
      · rw [haction, h.unpinDeployment_arm] at hspec
        obtain ⟨n, hlt, hn, heq⟩ := atIndex_eq_ok hspec
        exact ⟨n, hlt, hn, .inr heq⟩
    obtain ⟨n, hlt, hn, harm⟩ := hspec'
    obtain rfl := Option.some.inj (hn.symm.trans hindex)
    rw [Nat.mod_eq_of_lt hlt] at hidentity
    refine ⟨preview, n, checksum, live, hstored, hcaptured,
      parseDeploymentIdentity_ne_empty hidentity,
      ?_, ran_history events hp hsplit hran, hidentity⟩
    rcases harm with rfl | rfl
    · exact .inl rfl
    · exact .inr rfl

end Result

/-! ### A purge that nobody approved -/

/-- A host with packages, and the arms for deployments. -/
def purgingHost : Catalogued where
  toDaemon := { aptHost with
    buildActionSpec := fun actionName =>
      if actionName = "PinDeployment" then atIndex pinDeployment
      else if actionName = "UnpinDeployment" then atIndex unpinDeployment
      else sampleSpec actionName }
  previewAction_proposedChange _ _ _ := rfl
  pinDeployment_arm := rfl
  unpinDeployment_arm := rfl

/-- What `apt-get` would purge when the preview is made, and when it is executed. -/
def purgedAtPreview : String := "Purg libfoo [1.0]\n"

def purgedAtExecution : String := "Purg linux-image-6.1 [6.1]\n"

/-- An autoremove is previewed and approved when it would purge a library, and executed when it
would purge a kernel. -/
def purgesChanged : List purgingHost.toDaemon.system.Event :=
  .arrive (.preview ⟨sampleCaller, "req", "AptAutoremove", .obj [], false⟩) ::
    acts 0 4 { sampleChoice with uuid := "tx-1", output := .ok purgedAtPreview } ++
  .arrive (.approve ⟨sampleCaller, "req", "tx-1"⟩) :: acts 1 4 sampleChoice ++
  .arrive (.execute (sampleExecute purgingHost.toDaemon "tx-1" "AptAutoremove" (.obj []))) ::
    acts 2 11 { sampleChoice with output := .ok purgedAtExecution }

/-- The transactions that calls recorded. -/
def recordedIds (calls : List (Call DaemonCall DaemonCall.Answer)) : List String :=
  calls.filterMap fun
    | ⟨.recordPreviewed _ _, .ok record⟩ => some record.transactionId
    | _ => none

theorem recordedWith_of_mem_recordedIds {d : Daemon} {q : d.system.Process} {t : String}
    (h : t ∈ recordedIds q.history) : ∃ preview, RecordedWith q t preview := by
  obtain ⟨⟨op, answer⟩, hmem, heq⟩ := List.mem_filterMap.mp h
  split at heq
  · rename_i tx preview record hcall
    rw [hcall] at hmem
    exact ⟨preview, tx, record, hmem, Option.some.inj heq⟩
  · cases heq

/-- A process that started its action has the call in its history. -/
theorem exists_started {d : Daemon} {q : d.system.Process}
    (h : (q.history.any fun call => call.1.starts) = true) :
    ∃ spec, (⟨.executeWithProgress spec, ()⟩ : Call DaemonCall DaemonCall.Answer) ∈ q.history := by
  obtain ⟨⟨op, answer⟩, hmem, hstarts⟩ := List.any_eq_true.mp h
  obtain ⟨spec, rfl⟩ := starts_eq_true hstarts
  exact ⟨spec, hmem⟩

/-- The preview was made on one output, and the action started on another. -/
theorem purgesChanged_outputs :
    ((purgingHost.toDaemon.system.run purgesChanged).procs.map fun q =>
      (ran q.history, recordedIds q.history, q.history.any fun call => call.1.starts)) =
    [([simulateCommand (.ok purgedAtPreview)], ["tx-1"], false), ([], [], false),
      ([simulateCommand (.ok purgedAtExecution)], [], true)] := by
  decide +kernel

theorem purgesChanged_simulated :
    Simulated (purgingHost.toDaemon.system.run purgesChanged) "tx-1" purgedAtPreview := by
  have hfirst := congrArg (·[0]?) purgesChanged_outputs
  simp only [List.getElem?_map] at hfirst
  obtain ⟨q, hq, hflags⟩ := Option.map_eq_some_iff.mp hfirst
  obtain ⟨hran, hids, -⟩ : ran q.history = _ ∧ recordedIds q.history = _ ∧ _ := by
    simpa only [Prod.mk.injEq] using hflags
  obtain ⟨preview, hrecorded⟩ := recordedWith_of_mem_recordedIds (t := "tx-1")
    (hids ▸ List.mem_singleton.mpr rfl)
  exact ⟨0, q, preview, hq, hrecorded, hran⟩

theorem purgesChanged_started : ∃ p spec,
    (purgingHost.toDaemon.system.run purgesChanged).procs[2]? = some p ∧
      p.request = .execute (sampleExecute purgingHost.toDaemon "tx-1" "AptAutoremove" (.obj [])) ∧
      (⟨.executeWithProgress spec, ()⟩ : Call DaemonCall DaemonCall.Answer) ∈ p.history ∧
      ran p.history = [simulateCommand (.ok purgedAtExecution)] := by
  have hthird := congrArg (·[2]?) purgesChanged_outputs
  simp only [List.getElem?_map] at hthird
  obtain ⟨p, hp, hflags⟩ := Option.map_eq_some_iff.mp hthird
  obtain ⟨hran, -, hstarts⟩ : ran p.history = _ ∧ _ ∧ _ = true := by
    simpa only [Prod.mk.injEq] using hflags
  obtain ⟨spec, hstarted⟩ := exists_started hstarts
  exact ⟨p, spec, hp, request_of_arrival hp rfl, hstarted, hran⟩

/-- The removals that were captured are still the removals: none. -/
theorem purgesChanged_bound : ∃ out,
    Simulated (purgingHost.toDaemon.system.run purgesChanged) "tx-1" out ∧
      packagesOf "Remv " out = packagesOf "Remv " purgedAtExecution ∧
      (announced out = announced purgedAtExecution ↔
        purgedOnly out = purgedOnly purgedAtExecution) := by
  obtain ⟨p, spec, hp, hreq, hstarted, hran⟩ := purgesChanged_started
  obtain ⟨preview, out, live, -, -, hout, hlive, hsame, hiff⟩ :=
    (effects_bound purgingHost purgesChanged 2 p _ spec hp hreq hstarted).2.1 rfl
  obtain rfl : live = purgedAtExecution := by simpa [simulateCommand] using hlive.symm.trans hran
  exact ⟨out, hout, hsame, hiff out hout⟩

/-- The executor is called for a set of packages that nobody was shown. -/
theorem purges_not_bound : ¬ ∀ (h : Catalogued) (events : List h.toDaemon.system.Event) (i : ℕ)
    (p : h.toDaemon.system.Process) (r : ExecuteRequest) (spec : ActionSpec) (out live : String),
    (h.toDaemon.system.run events).procs[i]? = some p → p.request = .execute r →
    (⟨.executeWithProgress spec, ()⟩ : Call DaemonCall DaemonCall.Answer) ∈ p.history →
    r.actionName = "AptAutoremove" →
    Simulated (h.toDaemon.system.run events) r.transactionId out →
    ran p.history = [simulateCommand (.ok live)] → announced out = announced live := by
  intro hall
  obtain ⟨p, spec, hp, hreq, hstarted, hran⟩ := purgesChanged_started
  have heq := hall purgingHost purgesChanged 2 p _ spec _ _ hp hreq hstarted rfl
    purgesChanged_simulated hran
  have hmem : "linux-image-6.1" ∈ announced purgedAtPreview := by
    rw [heq]
    decide +kernel
  revert hmem
  decide +kernel

end Sysknife.Dispatcher
