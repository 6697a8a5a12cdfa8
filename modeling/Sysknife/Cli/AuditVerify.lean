import Sysknife.Audit.Census
import Sysknife.Dispatcher.Handlers
import Sysknife.Store.Anchors

/-!
# `sysknife audit verify`

The audit of a local store reads the two chains and the status columns and, where an anchor is
configured, the chain once more and the checkpoints, each at a moment of its own, and folds what
it finds into one exit code (`runner.rs`, `audit_chain.rs`).

* `combined_eq_zero_iff`: the exit code is 0 exactly when every check was made and passed.
* `vouched_of_exit_zero`: what an exit code of 0 is worth, whoever wrote the tables.
* `audit_of_live_store`: what the audit of an honest store says while the daemon goes on writing
  and anchoring.
-/

namespace Sysknife.Audit

/-- The text of an error of the sink. -/
def CheckpointSinkError.message : CheckpointSinkError → String
  | .connect m => "checkpoint sink connection error: " ++ m
  | .query m => "checkpoint sink query error: " ++ m

end Sysknife.Audit

namespace Sysknife.Cli

open Audit Store

/-! ### The verdict -/

/-- Everything an audit checks. The status is unset where the check was not made. -/
structure AuditVerification where
  chain : VerifyOutcome
  events : VerifyOutcome
  binding : BindingOutcome
  attribution : Option AttributionCensus
  status : Option StatusOutcome
  deriving DecidableEq, Repr

/-- `0` intact, `1` broken, `2` cannot verify. -/
def outcomeToExitCode : VerifyOutcome → ℕ
  | .intact _ => 0
  | .broken _ _ _ _ _ => 1
  | .cannotVerify _ => 2

def statusOutcomeToExitCode : StatusOutcome → ℕ
  | .agrees _ => 0
  | .disagrees _ => 1
  | .cannotVerify _ => 2

def bindingOutcomeToExitCode : BindingOutcome → ℕ
  | .consistent _ => 0
  | .notChecked => 2
  | .missingEvent _ _ => 1

def checkpointOutcomeToExitCode : CheckpointOutcome → ℕ
  | .consistent _ => 0
  | .badSignature _ => 1
  | .truncated _ _ => 1
  | .tipMismatch _ _ _ => 1
  | .cannotVerify _ => 2

/-- A detected break outranks a check that could not be made. -/
def AuditVerification.exitCode (v : AuditVerification) : ℕ :=
  let codes := [outcomeToExitCode v.chain, outcomeToExitCode v.events,
    bindingOutcomeToExitCode v.binding] ++ (v.status.map statusOutcomeToExitCode).toList
  if 1 ∈ codes then 1 else if 2 ∈ codes then 2 else 0

/-- The checks of the two chains, with the daemon's key. -/
def verifyAll (key : AuditKey) (txRows : List ChainRow) (eventRows : List EventRow) :
    AuditVerification where
  chain := verifyChain key txRows
  events := verifyEventChain key eventRows
  binding := verifyEventBinding txRows eventRows
  attribution := some (.of txRows)
  status := none

/-- The checks of the two chains, with only the exported public key. -/
def verifyAllWithPubkey (parse : String → Option VerifyingKey) (verifyingKeyHex : String)
    (txRows : List ChainRow) (eventRows : List EventRow) : AuditVerification where
  chain := verifyChainWithPubkey parse verifyingKeyHex txRows
  events := verifyEventChainWithPubkey parse verifyingKeyHex eventRows
  binding := verifyEventBinding txRows eventRows
  attribution := some (.of txRows)
  status := none

/-- The verdict of an audit that could not read the store. -/
def cannotVerifyAll (reason : String) : AuditVerification where
  chain := .cannotVerify reason
  events := .cannotVerify reason
  binding := .notChecked
  attribution := none
  status := none

/-- An empty log and no anchor: nothing tells a fresh log from an erased one. -/
def emptyUnanchoredChain (verification : AuditVerification) (anchor : Option CheckpointOutcome) :
    Bool :=
  decide (verification.chain = .intact 0) && anchor.isNone

/-- The exit code of the command. -/
def combinedVerificationExitCode (verification : AuditVerification)
    (anchor : Option CheckpointOutcome) : ℕ :=
  let codes := [verification.exitCode, (anchor.map checkpointOutcomeToExitCode).getD 0]
  if 1 ∈ codes then 1
  else if 2 ∈ codes ∨ emptyUnanchoredChain verification anchor = true then 2
  else 0

/-! ### The reads of an audit -/

/-- What the audit verifies with. -/
inductive Verifier
  | privateKey (key : AuditKey)
  | publicKey (verifyingKeyHex : String)

/-- The store on this host, as each query of one audit finds it. -/
structure LocalStore where
  dbPath : String
  /-- `path_is_present` -/
  isPresent : Bool
  /-- `Path::exists`, which is also false for a path that may not be looked at -/
  isReachable : Bool
  openReadOnly : Except StoreError Unit
  chain : Except StoreError Tables
  events : Except StoreError Tables
  status : Except StoreError Tables
  /-- How the text of a status column reads. -/
  column : TransactionRow → Option JobState

/-- The anchor, if one is configured, with the second look at the chain that is compared to it. -/
structure AnchorSource where
  /-- `SYSKNIFE_CHECKPOINT_DB` -/
  dbUrl : Option String
  rows : Except StoreError Tables
  connect : Except CheckpointSinkError Unit
  sink : SinkAnswers
  anchored : List Checkpoint

def productionDatabasePath : String := "/var/lib/sysknife/daemon.sqlite"

/-- The status cross-check; a failure to make it is inconclusive. -/
def LocalStore.statusVerdict (store : LocalStore) : StatusOutcome :=
  match store.status >>= statusMatchesChainOf store.column with
  | .ok outcome => outcome
  | .error e => .cannotVerify ("status cross-check failed: " ++ e.message)

/-- An anchor is configured when its address is not blank. -/
def AnchorSource.isConfigured (anchor : AnchorSource) : Bool :=
  (anchor.dbUrl.filter fun url => trim url ≠ "").isSome

section Audit

variable (parse : String → Option VerifyingKey) (hexOf : AuditKey → String)

/-- The checks of the two chains, with whatever key the audit has. -/
def Verifier.verifyAll : Verifier → List ChainRow → List EventRow → AuditVerification
  | .privateKey key => Cli.verifyAll key
  | .publicKey verifyingKeyHex => verifyAllWithPubkey parse verifyingKeyHex

/-- The public key the checkpoints are verified with. -/
def Verifier.verifyingKeyHex : Verifier → String
  | .privateKey key => hexOf key
  | .publicKey verifyingKeyHex => verifyingKeyHex

def verifySqlite (store : LocalStore) (verifier : Verifier) : AuditVerification :=
  if !store.isPresent then
    cannotVerifyAll ("audit database not found at " ++ store.dbPath ++
      "; set $SYSKNIFE_DATABASE_PATH or run the daemon first")
  else if !store.isReachable then
    cannotVerifyAll ("audit database not found or not readable at " ++ store.dbPath ++
      "; set $SYSKNIFE_DATABASE_PATH or run the daemon first" ++
      (if store.dbPath = productionDatabasePath then
        "; the system daemon's store is root-owned, so run this under sudo or set " ++
          "$SYSKNIFE_DATABASE_PATH"
      else ""))
  else
    match store.openReadOnly with
    | .error e => cannotVerifyAll ("opening audit database failed: " ++ e.message)
    | .ok () =>
      match store.chain with
      | .error e => cannotVerifyAll ("audit chain query failed: " ++ e.message)
      | .ok atChain =>
        match store.events with
        | .error e => cannotVerifyAll ("approval-event query failed: " ++ e.message)
        | .ok atEvents =>
          { verifier.verifyAll parse atChain.chainRows atEvents.events with
            status := some store.statusVerdict }

def verifyConfiguredAnchor (anchor : AnchorSource) (verifier : Verifier) :
    Option CheckpointOutcome :=
  if !anchor.isConfigured then none
  else
    match anchor.rows with
    | .error e =>
      some (.cannotVerify ("reading the local chain for the anchor check failed: " ++ e.message))
    | .ok atAnchor =>
      match anchor.connect with
      | .error e =>
        some (.cannotVerify ("connecting to the checkpoint database failed: " ++ e.message))
      | .ok () =>
        match verifyAgainstAnchor parse (verifier.verifyingKeyHex hexOf) atAnchor.chainRows
          anchor.sink anchor.anchored with
        | .ok outcome => some outcome
        | .error e => some (.cannotVerify ("reading anchored checkpoints failed: " ++ e.message))

/-- The exit code of the audit of a local store; without a key it is 2. -/
def runAuditVerify (verifier : Except String Verifier) (store : LocalStore)
    (anchor : AnchorSource) : ℕ :=
  match verifier with
  | .error _ => 2
  | .ok verifier =>
    combinedVerificationExitCode (verifySqlite parse store verifier)
      (verifyConfiguredAnchor parse hexOf anchor verifier)

end Audit

/-! ### Exit codes -/

theorem outcomeToExitCode_fine_iff {o : VerifyOutcome} :
    (outcomeToExitCode o ≠ 1 ∧ outcomeToExitCode o ≠ 2) ↔ ∃ n, o = .intact n := by
  cases o <;> simp [outcomeToExitCode]

theorem statusOutcomeToExitCode_fine_iff {o : StatusOutcome} :
    (statusOutcomeToExitCode o ≠ 1 ∧ statusOutcomeToExitCode o ≠ 2) ↔ ∃ n, o = .agrees n := by
  cases o <;> simp [statusOutcomeToExitCode]

theorem bindingOutcomeToExitCode_fine_iff {o : BindingOutcome} :
    (bindingOutcomeToExitCode o ≠ 1 ∧ bindingOutcomeToExitCode o ≠ 2) ↔
      ∃ n, o = .consistent n := by
  cases o <;> simp [bindingOutcomeToExitCode]

theorem checkpointOutcomeToExitCode_fine_iff {o : CheckpointOutcome} :
    (checkpointOutcomeToExitCode o ≠ 1 ∧ checkpointOutcomeToExitCode o ≠ 2) ↔
      ∃ n, o = .consistent n := by
  cases o <;> simp [checkpointOutcomeToExitCode]

/-- The verdict on the store is fine exactly when each of its checks is. -/
theorem exitCode_fine_iff {v : AuditVerification} : (v.exitCode ≠ 1 ∧ v.exitCode ≠ 2) ↔
    (∃ n, v.chain = .intact n) ∧ (∃ n, v.events = .intact n) ∧ (∃ n, v.binding = .consistent n) ∧
      ∀ o, v.status = some o → ∃ n, o = .agrees n := by
  rw [← outcomeToExitCode_fine_iff, ← outcomeToExitCode_fine_iff,
    ← bindingOutcomeToExitCode_fine_iff]
  simp only [← statusOutcomeToExitCode_fine_iff]
  rw [AuditVerification.exitCode]
  cases v.status with
  | none =>
    simp only [Option.map_none, Option.toList_none, List.append_nil, List.mem_cons,
      List.not_mem_nil, or_false]
    split_ifs <;> grind
  | some o =>
    simp only [Option.map_some, Option.toList_some, List.cons_append, List.nil_append,
      List.mem_cons, List.not_mem_nil, or_false]
    split_ifs <;> grind

/-- **The exit code is 0 exactly when every check was made and passed**, and the log is not
empty unless an anchor vouches for it. -/
theorem combined_eq_zero_iff {v : AuditVerification} {anchor : Option CheckpointOutcome} :
    combinedVerificationExitCode v anchor = 0 ↔
      (∃ n, v.chain = .intact n ∧ (n = 0 → anchor ≠ none)) ∧ (∃ n, v.events = .intact n) ∧
        (∃ n, v.binding = .consistent n) ∧ (∀ o, v.status = some o → ∃ n, o = .agrees n) ∧
        ∀ o, anchor = some o → ∃ n, o = .consistent n := by
  have hcodes : combinedVerificationExitCode v anchor = 0 ↔ (v.exitCode ≠ 1 ∧ v.exitCode ≠ 2) ∧
      emptyUnanchoredChain v anchor = false ∧ ∀ o, anchor = some o → ∃ n, o = .consistent n := by
    simp only [← checkpointOutcomeToExitCode_fine_iff]
    rw [combinedVerificationExitCode]
    cases anchor with
    | none =>
      simp only [Option.map_none, Option.getD_none, List.mem_cons, List.not_mem_nil, or_false]
      split_ifs <;> grind
    | some o =>
      simp only [Option.map_some, Option.getD_some, List.mem_cons, List.not_mem_nil, or_false]
      split_ifs <;> grind
  have hempty : emptyUnanchoredChain v anchor = false ↔ (v.chain = .intact 0 → anchor ≠ none) := by
    simp [emptyUnanchoredChain, Option.isSome_iff_ne_none]
  rw [hcodes, exitCode_fine_iff, hempty]
  constructor
  · rintro ⟨⟨⟨n, hchain⟩, hrest⟩, hanchored, hanchor⟩
    exact ⟨⟨n, hchain, fun hn => hanchored (hn ▸ hchain)⟩, hrest.1, hrest.2.1, hrest.2.2, hanchor⟩
  · rintro ⟨⟨n, hchain, hanchored⟩, hevents, hbinding, hstatus, hanchor⟩
    refine ⟨⟨⟨n, hchain⟩, hevents, hbinding, hstatus⟩, fun hzero => ?_, hanchor⟩
    exact hanchored (VerifyOutcome.intact.inj (hchain.symm.trans hzero))

/-! ### What the audit made of its reads -/

section Reads

variable {parse : String → Option VerifyingKey} {hexOf : AuditKey → String} {store : LocalStore}
  {anchor : AnchorSource} {verifier : Verifier}

theorem verifySqlite_cases (parse : String → Option VerifyingKey) (store : LocalStore)
    (verifier : Verifier) :
    (∃ reason, verifySqlite parse store verifier = cannotVerifyAll reason) ∨
      ∃ atChain atEvents, store.chain = .ok atChain ∧ store.events = .ok atEvents ∧
        verifySqlite parse store verifier =
          { verifier.verifyAll parse atChain.chainRows atEvents.events with
            status := some store.statusVerdict } := by
  unfold verifySqlite
  split_ifs
  · exact .inl ⟨_, rfl⟩
  · exact .inl ⟨_, rfl⟩
  · exact .inl ⟨_, rfl⟩
  · split
    · exact .inl ⟨_, rfl⟩
    · split
      · exact .inl ⟨_, rfl⟩
      · rename_i atChain hchain
        split
        · exact .inl ⟨_, rfl⟩
        · rename_i atEvents hevents
          exact .inr ⟨atChain, atEvents, hchain, hevents, rfl⟩

theorem verifyConfiguredAnchor_of_consistent (hconfigured : anchor.isConfigured = true)
    (h : ∀ o, verifyConfiguredAnchor parse hexOf anchor verifier = some o →
      ∃ n, o = .consistent n) :
    ∃ atAnchor n, anchor.rows = .ok atAnchor ∧
      verifyAgainstAnchor parse (verifier.verifyingKeyHex hexOf) atAnchor.chainRows anchor.sink
        anchor.anchored = .ok (.consistent n) := by
  unfold verifyConfiguredAnchor at h
  rw [hconfigured] at h
  simp only [Bool.not_true, Bool.false_eq_true, if_false] at h
  split at h
  · obtain ⟨n, hn⟩ := h _ rfl
    cases hn
  · rename_i atAnchor hrows
    split at h
    · obtain ⟨n, hn⟩ := h _ rfl
      cases hn
    · split at h
      · rename_i outcome houtcome
        obtain ⟨n, rfl⟩ := h _ rfl
        exact ⟨atAnchor, n, hrows, houtcome⟩
      · obtain ⟨n, hn⟩ := h _ rfl
        cases hn

/-- The key the audit verifies the chains with, if it can be read. -/
def Verifier.verifyingKey (parse : String → Option VerifyingKey) : Verifier → Option VerifyingKey
  | .privateKey key => some key.verifyingKey
  | .publicKey verifyingKeyHex => parse verifyingKeyHex

/-- Both ways to audit run the same checks. -/
theorem Verifier.verifyAll_eq {vk : VerifyingKey} (h : verifier.verifyingKey parse = some vk)
    (txRows : List ChainRow) (eventRows : List EventRow) :
    ∃ expectKeyId, verifier.verifyAll parse txRows eventRows =
      ⟨verifyRows vk expectKeyId txRows, verifyEventRows vk expectKeyId eventRows,
        verifyEventBinding txRows eventRows, some (.of txRows), none⟩ := by
  cases verifier with
  | privateKey key =>
    obtain rfl := Option.some.inj h
    exact ⟨some key.keyId, rfl⟩
  | publicKey verifyingKeyHex =>
    refine ⟨none, ?_⟩
    have h : parse verifyingKeyHex = some vk := h
    simp only [Verifier.verifyAll, verifyAllWithPubkey, verifyChainWithPubkey,
      verifyEventChainWithPubkey, h]

end Reads

/-! ### What an exit code of 0 is worth -/

/-- What the events say of one transaction. -/
def historyIn (events : List EventRow) (t : String) : List String :=
  Tables.historyOf { Tables.empty with events } t

/-- The rows agree in every column the signature covers. -/
def SameSignedEvent (r a : EventRow) : Prop := SameEvent { r with chainHash := a.chainHash } a

theorem historyIn_eq_of_sameSignedEvent {xs ys : List EventRow}
    (h : List.Forall₂ SameSignedEvent xs ys) (t : String) : historyIn xs t = historyIn ys t := by
  induction h with
  | nil => rfl
  | @cons x y xs ys hxy _ ih =>
    have hid : x.transactionId = y.transactionId := (congrArg EventRow.transactionId hxy.columns :)
    have hkind : x.kind = y.kind := (congrArg EventRow.kind hxy.columns :)
    simp only [historyIn, Tables.historyOf, List.filter_cons, hid] at ih ⊢
    split_ifs
    · rw [List.map_cons, List.map_cons, hkind, ih]
    · exact ih

section Vouched

variable {key : AuditKey} {vk : VerifyingKey} {H : StoreHistory key}

theorem sameSignedEvent_of_matches {ideal : IdealSignatures vk H.toSigningHistory} {r a : EventRow}
    (h : (H.eventLog ideal).Matches r a) : SameSignedEvent r a := by
  obtain ⟨m, ⟨e, he, rfl⟩, ⟨e', he', hm⟩, -⟩ := h.message
  have hprev : r.prevChainHash = a.prevChainHash := h.prev
  have hr : 0x1F ∉ utf8 r.prevChainHash := hprev ▸ h.unframed
  obtain rfl := (eventMessage_inj hr h.unframed hm).1
  exact sameEvent_of_records (r := { r with chainHash := a.chainHash }) he he' hprev rfl

/-- The events the rows commit are among the events that verify. -/
theorem exists_committed_isPrefix (ideal : IdealSignatures vk H.toSigningHistory)
    {expectKeyId expectKeyId' : Option String} {rows : List ChainRow} {events found : List EventRow}
    {n n' k : ℕ} (hrows : verifyRows vk expectKeyId rows = .intact n)
    (hevents : verifyEventRows vk expectKeyId' events = .intact n')
    (hbinding : verifyEventBinding rows events = .consistent k) (hfound : found <+: H.events)
    (hlength : events.length = found.length) {row : ChainRow} (hrow : row ∈ rows) {tip : String}
    (htip : committedTip row = some tip) : ∃ before, before <+: found ∧ tipOf before = tip := by
  obtain ⟨before, hbefore, hb, kept, hkept, hsame⟩ :=
    exists_kept_of_committedTip ideal hrows hevents hbinding hrow htip
  refine ⟨before, List.prefix_of_prefix_length_le hbefore hfound ?_, hb⟩
  calc before.length = kept.length := hsame.length_eq.symm
    _ ≤ events.length := hkept.length_le
    _ = found.length := hlength

/-- What an audit that passed establishes about the tables it read. -/
structure Vouched (H : StoreHistory key) (store : LocalStore) (anchor : AnchorSource)
    (atChain atEvents atStatus : Tables) : Prop where
  /-- The rows are the first rows the store appended, in every signed column. -/
  rows : ∃ rows, rows <+: H.rows ∧ List.Forall₂
    (fun r a => SameSigned r a ∧ r.prevChainHash = a.prevChainHash) atChain.chainRows rows
  /-- The events are the first events it appended, at least up to what the rows commit; and where
  the events stayed as they were, every status column shows what these events say. -/
  events : ∃ events, events <+: H.events ∧ List.Forall₂ SameSignedEvent atEvents.events events ∧
    (∀ row ∈ atChain.chainRows, ∀ tip, committedTip row = some tip →
      ∃ before, before <+: events ∧ tipOf before = tip) ∧
    (atStatus.events = atEvents.events → ∀ r ∈ atStatus.transactions,
      ∃ status, store.column r = some status ∧
        SoundHistory (historyIn events r.transactionId) status)
  /-- An empty log passes only under an anchor. -/
  nonempty : anchor.isConfigured = false → atChain.chainRows ≠ []
  /-- Under an anchor, no row up to the newest checkpoint is missing, where the two looks at the
  chain found the same. -/
  complete : anchor.isConfigured = true → anchor.anchored ≠ [] ∧ ∃ atAnchor,
    anchor.rows = .ok atAnchor ∧ (atAnchor.chainRows = atChain.chainRows →
      ∀ cp ∈ anchor.anchored, ∀ a ∈ H.rows, a.seq ≤ cp.seq →
        ∃ r ∈ atChain.chainRows, SameSigned r a ∧ r.prevChainHash = a.prevChainHash)

/-- Agreement with the anchor is agreement with checkpoints, at least one and all that there
are. -/
theorem exists_verifyCheckpoints_of_verifyAgainstAnchor
    {parse : String → Option VerifyingKey} {hex : String} {rows : List ChainRow}
    {db : SinkAnswers} {stored : List Checkpoint} {n : ℕ}
    (h : verifyAgainstAnchor parse hex rows db stored = .ok (.consistent n)) :
    stored ≠ [] ∧ verifyCheckpoints parse hex rows (db.order stored) = .consistent n := by
  obtain ⟨anchored, hload, h⟩ := exists_of_bind_eq_ok h
  have hanchored : anchored = db.order stored := by
    unfold SinkAnswers.loadAll at hload
    split at hload
    · cases hload
    · exact (Except.ok.inj hload).symm
  subst hanchored
  split_ifs at h with hempty
  · cases Except.ok.inj h
  refine ⟨fun hnil => hempty ?_, Except.ok.inj h⟩
  rw [List.isEmpty_iff]
  exact List.perm_nil.mp (hnil ▸ db.order_perm stored)

/-- **What an exit code of 0 is worth.** Whoever wrote the tables, if the audit exits with 0 then
the rows and the events it read are the first ones the key's owner appended, complete up to the
newest checkpoint and to what the rows commit; and no status column shows what the events do not
say. -/
theorem vouched_of_exit_zero (ideal : IdealSignatures vk H.toSigningHistory)
    (parse : String → Option VerifyingKey) (hexOf : AuditKey → String) (verifier : Verifier)
    (hvk : verifier.verifyingKey parse = some vk) (store : LocalStore) (anchor : AnchorSource)
    (hexit : runAuditVerify parse hexOf (.ok verifier) store anchor = 0) :
    ∃ atChain atEvents atStatus, store.chain = .ok atChain ∧ store.events = .ok atEvents ∧
      store.status = .ok atStatus ∧ Vouched H store anchor atChain atEvents atStatus := by
  obtain ⟨⟨n, hchain, hempty⟩, ⟨n', hevents⟩, ⟨k, hbinding⟩, hstatus, hanchor⟩ :=
    combined_eq_zero_iff.mp hexit
  rcases verifySqlite_cases parse store verifier with
    ⟨reason, hverdict⟩ | ⟨atChain, atEvents, hatChain, hatEvents, hverdict⟩
  · rw [hverdict] at hchain
    cases hchain
  obtain ⟨expectKeyId, hall⟩ := Verifier.verifyAll_eq hvk atChain.chainRows atEvents.events
  rw [hall] at hverdict
  rw [hverdict] at hchain hevents hbinding hstatus
  dsimp only at hchain hevents hbinding
  obtain ⟨m, hagrees⟩ := hstatus _ rfl
  have hread : store.status >>= statusMatchesChainOf store.column = .ok (.agrees m) := by
    unfold LocalStore.statusVerdict at hagrees
    split at hagrees
    · rename_i outcome houtcome
      rw [houtcome, hagrees]
    · cases hagrees
  obtain ⟨atStatus, hatStatus, hread⟩ := exists_of_bind_eq_ok hread
  obtain ⟨rows, hrows, hrowsMatch⟩ := exists_sameSigned_of_intact ideal hchain
  obtain ⟨events, heventsPrefix, heventsMatch⟩ := SignedLog.exists_matches_of_intact
    (L := H.eventLog ideal) (fun _ => exists_message_of_checkEvent_verified) hevents
  have hsame : List.Forall₂ SameSignedEvent atEvents.events events :=
    heventsMatch.imp fun _ _ h => sameSignedEvent_of_matches h
  refine ⟨atChain, atEvents, atStatus, hatChain, hatEvents, hatStatus,
    ⟨rows, hrows, hrowsMatch⟩, ⟨events, heventsPrefix, hsame, fun row hrow tip htip => ?_,
      fun hsameEvents r hr => ?_⟩, fun hconfigured hnil => ?_, fun hconfigured => ?_⟩
  · exact exists_committed_isPrefix ideal hchain hevents hbinding heventsPrefix
      hsame.length_eq hrow htip
  · obtain ⟨status, hcolumn, hsound⟩ := (statusMatchesChainOf_agrees_iff.mp hread).2 r hr
    have hhistory : atStatus.historyOf r.transactionId = historyIn events r.transactionId := by
      rw [← historyIn_eq_of_sameSignedEvent hsame, ← hsameEvents]
      rfl
    rw [sound_evidence_iff_soundHistory, hhistory] at hsound
    exact ⟨status, hcolumn, hsound⟩
  · have hzero : n = 0 := by
      rw [hnil] at hchain
      exact (VerifyOutcome.intact.inj hchain).symm
    refine hempty hzero ?_
    rw [verifyConfiguredAnchor, hconfigured]
    rfl
  · obtain ⟨atAnchor, m', hatAnchor, hconsistent⟩ :=
      verifyConfiguredAnchor_of_consistent hconfigured hanchor
    obtain ⟨hne, hcps⟩ := exists_verifyCheckpoints_of_verifyAgainstAnchor hconsistent
    refine ⟨hne, atAnchor, hatAnchor, fun hlooks cp hcp a ha hle => ?_⟩
    rw [hlooks] at hcps
    exact exists_row_of_seq_le ideal hchain hcps
      ((anchor.sink.order_perm anchor.anchored).mem_iff.mpr hcp) ha hle

end Vouched

/-! ### The audit of a live store -/

/-- Each query of the audit answers with the tables of its moment. -/
structure LocalStore.Reads (store : LocalStore) (atChain atEvents atStatus : Tables) : Prop where
  isPresent : store.isPresent = true
  isReachable : store.isReachable = true
  openReadOnly : store.openReadOnly = .ok ()
  chain : store.chain = .ok atChain
  events : store.events = .ok atEvents
  status : store.status = .ok atStatus
  column : store.column = fun r => some r.status

/-- The second look at the chain, and the checkpoints, at the moments of theirs. -/
structure AnchorSource.Reads (anchor : AnchorSource) (atAnchor : Tables)
    (anchored : List Checkpoint) : Prop where
  rows : anchor.rows = .ok atAnchor
  connect : anchor.connect = .ok ()
  loadError : anchor.sink.loadError = none
  anchored : anchor.anchored = anchored

/-- The audit verifies the chains and the checkpoints under this key. -/
structure Verifier.Under (parse : String → Option VerifyingKey) (hexOf : AuditKey → String)
    (key : AuditKey) (verifier : Verifier) : Prop where
  chains : verifier.verifyingKey parse = some key.verifyingKey
  checkpoints : parse (verifier.verifyingKeyHex hexOf) = some key.verifyingKey

section Live

variable {env : StoreEnv} {key : AuditKey} {parse : String → Option VerifyingKey}
  {hexOf : AuditKey → String} {hex : String} {s : Tables} {w : Watch} {verifier : Verifier}
  {store : LocalStore} {anchor : AnchorSource}

/-- Each step keeps the agreement of the status columns. -/
theorem agreeing_run (h : Agreeing w.tables) (steps : List WatchStep) :
    Agreeing (w.run env key parse hex steps).tables := by
  induction steps generalizing w with
  | nil => exact h
  | cons step steps ih =>
    refine ih ?_
    cases step with
    | operation clock op => exact agreeing_apply h op
    | fetch i => exact h
    | anchor i createdAt db =>
      cases hi : w.fetched i with
      | none => rwa [Watch.step_anchor_of_none hi]
      | some rows => rwa [Watch.step_anchor_of_some hi]

/-- No step takes a row or an event away. -/
theorem isPrefix_step (hkey : env.auditKey = some key) (h : Watched key w) (step : WatchStep) :
    w.tables.chainRows <+: (w.step env key parse hex step).tables.chainRows ∧
      w.tables.events <+: (w.step env key parse hex step).tables.events := by
  cases step with
  | operation clock op => exact isPrefix_of_steps (steps_apply hkey h.honest op)
  | fetch i => exact ⟨List.prefix_rfl, List.prefix_rfl⟩
  | anchor i createdAt db =>
    cases hi : w.fetched i with
    | none =>
      rw [Watch.step_anchor_of_none hi]
      exact ⟨List.prefix_rfl, List.prefix_rfl⟩
    | some rows =>
      rw [Watch.step_anchor_of_some hi]
      exact ⟨List.prefix_rfl, List.prefix_rfl⟩

theorem isPrefix_run (hkey : env.auditKey = some key)
    (hsign : ∀ m, key.verifyingKey m (key.sign m) = true)
    (hparse : parse hex = some key.verifyingKey) (h : Watched key w) (steps : List WatchStep) :
    w.tables.chainRows <+: (w.run env key parse hex steps).tables.chainRows ∧
      w.tables.events <+: (w.run env key parse hex steps).tables.events := by
  induction steps generalizing w with
  | nil => exact ⟨List.prefix_rfl, List.prefix_rfl⟩
  | cons step steps ih =>
    have hstep : w.tables.chainRows <+: (w.step env key parse hex step).tables.chainRows ∧
        w.tables.events <+: (w.step env key parse hex step).tables.events :=
      isPrefix_step hkey h step
    have hrest := ih (h.run hkey hsign hparse [step])
    exact ⟨hstep.1.trans hrest.1, hstep.2.trans hrest.2⟩

/-- The sink stays as it was where nobody anchors. -/
theorem anchored_run {steps : List WatchStep}
    (hsteps : ∀ i createdAt db, WatchStep.anchor i createdAt db ∉ steps) :
    (w.run env key parse hex steps).anchored = w.anchored := by
  induction steps generalizing w with
  | nil => rfl
  | cons step steps ih =>
    have hrest : ∀ i createdAt db, WatchStep.anchor i createdAt db ∉ steps :=
      fun i createdAt db hmem => hsteps i createdAt db (List.mem_cons_of_mem _ hmem)
    refine (ih hrest).trans ?_
    cases step with
    | operation clock op => rfl
    | fetch i => rfl
    | anchor i createdAt db => exact absurd List.mem_cons_self (hsteps i createdAt db)

/-- The rows are read before the events, so every event they commit is there. -/
theorem binding_of_isPrefix {rows : List ChainRow} {events events' : List EventRow}
    (h : Written key rows events) (hevents : events <+: events') :
    ∃ n, verifyEventBinding rows events' = .consistent n := by
  obtain ⟨n, hn⟩ := h.binding
  refine exists_bindingFrom_eq_consistent_iff.mpr fun row hrow tip htip hne => ?_
  have hknown := exists_bindingFrom_eq_consistent_iff.mp ⟨n, hn⟩ row hrow tip htip hne
  exact (hevents.map _).subset hknown

/-- Every check of a store passes that was honest at each of the reads. -/
theorem verifySqlite_of_reads (hsign : ∀ m, key.verifyingKey m (key.sign m) = true)
    (hverifier : verifier.verifyingKey parse = some key.verifyingKey)
    {atChain atEvents atStatus : Tables} (hreads : store.Reads atChain atEvents atStatus)
    (hchain : Honest key atChain) (hevents : Honest key atEvents) (hstatus : Agreeing atStatus)
    (hbegins : atChain.events <+: atEvents.events) :
    (verifySqlite parse store verifier).chain = .intact atChain.chainRows.length ∧
      (verifySqlite parse store verifier).exitCode = 0 := by
  obtain ⟨expectKeyId, hall⟩ := Verifier.verifyAll_eq hverifier atChain.chainRows atEvents.events
  have hverdict : verifySqlite parse store verifier =
      { verifier.verifyAll parse atChain.chainRows atEvents.events with
        status := some store.statusVerdict } := by
    simp only [verifySqlite, hreads.isPresent, hreads.isReachable, hreads.openReadOnly,
      hreads.chain, hreads.events, Bool.not_true, Bool.false_eq_true, if_false]
  have hrows : verifyRows key.verifyingKey expectKeyId atChain.chainRows =
      .intact atChain.chainRows.length :=
    walkChain_of_chained (appended_iff_chained.mp hchain.written.appended)
      fun _ => checkRow_of_signedRow hsign
  have heventRows : verifyEventRows key.verifyingKey expectKeyId atEvents.events =
      .intact atEvents.events.length :=
    walkChain_of_chained hevents.written.chained fun _ => checkEvent_of_signedEvent hsign
  obtain ⟨n, hbinding⟩ := binding_of_isPrefix hchain.written hbegins
  have hcheck : (store.status >>= statusMatchesChainOf store.column) =
      .ok (.agrees atStatus.transactions.length) := by
    rw [hreads.status, hreads.column]
    exact agrees_of_agreeing hstatus
  have hagrees : store.statusVerdict = .agrees atStatus.transactions.length := by
    rw [LocalStore.statusVerdict, hcheck]
  rw [hverdict, hall, hrows, heventRows, hbinding, hagrees]
  exact ⟨rfl, rfl⟩

/-- The exit code, once every check of the store passed. -/
theorem combined_of_exitCode_eq_zero {v : AuditVerification} (h : v.exitCode = 0)
    (outcome : Option CheckpointOutcome) : combinedVerificationExitCode v outcome =
      outcome.elim (if v.chain = .intact 0 then 2 else 0) checkpointOutcomeToExitCode := by
  cases outcome with
  | none => simp [combinedVerificationExitCode, h, emptyUnanchoredChain]
  | some outcome =>
    cases outcome <;>
      simp [combinedVerificationExitCode, h, emptyUnanchoredChain, checkpointOutcomeToExitCode]

/-- The check against the anchor accuses a store exactly when a checkpoint is beyond what the
second look at the chain found. -/
theorem anchorExitCode_of_reads (hsign : ∀ m, key.verifyingKey m (key.sign m) = true)
    (hverifier : parse (verifier.verifyingKeyHex hexOf) = some key.verifyingKey)
    (hconfigured : anchor.isConfigured = true) {atAnchor : Tables}
    (hreads : anchor.Reads atAnchor w.anchored) (h : Watched key w)
    (hbegins : atAnchor.chainRows <+: w.tables.chainRows) :
    ∃ outcome, verifyConfiguredAnchor parse hexOf anchor verifier = some outcome ∧
      checkpointOutcomeToExitCode outcome =
        if w.anchored = [] then 2
        else if ∀ cp ∈ w.anchored, cp.seq ≤ atAnchor.chainRows.length then 0 else 1 := by
  have hverify : ∀ outcome, verifyAgainstAnchor parse (verifier.verifyingKeyHex hexOf)
      atAnchor.chainRows anchor.sink w.anchored = .ok outcome →
        verifyConfiguredAnchor parse hexOf anchor verifier = some outcome := by
    intro outcome houtcome
    simp only [verifyConfiguredAnchor, hconfigured, hreads.rows, hreads.connect, hreads.anchored,
      houtcome, Bool.not_true, Bool.false_eq_true, if_false]
  by_cases hempty : w.anchored = []
  · have hnone : anchor.sink.order w.anchored = [] := by
      rw [hempty]
      exact List.perm_nil.mp (anchor.sink.order_perm [])
    have hcannot : ∃ reason, verifyAgainstAnchor parse (verifier.verifyingKeyHex hexOf)
        atAnchor.chainRows anchor.sink w.anchored = .ok (.cannotVerify reason) := by
      simp only [verifyAgainstAnchor, SinkAnswers.loadAll, hreads.loadError, hnone]
      exact ⟨_, rfl⟩
    obtain ⟨reason, hreason⟩ := hcannot
    exact ⟨_, hverify _ hreason, by rw [if_pos hempty]; rfl⟩
  · have htake := h.verifyAgainstAnchor_take hsign hverifier hbegins.length_le hreads.loadError
      hempty
    rw [← List.prefix_iff_eq_take.mp hbegins] at htake
    refine ⟨_, hverify _ htake, ?_⟩
    have hperm := anchor.sink.order_perm w.anchored
    rw [if_neg hempty]
    by_cases hwithin : ∀ cp ∈ w.anchored, cp.seq ≤ atAnchor.chainRows.length
    · rw [if_pos hwithin, beginningVerdict_of_le fun cp hcp => hwithin cp (hperm.mem_iff.mp hcp)]
      rfl
    · rw [if_neg hwithin]
      simp only [not_forall, not_le, exists_prop] at hwithin
      obtain ⟨cp, hcp, hlt⟩ := hwithin
      obtain ⟨cp', -, -, -, hverdict⟩ := beginningVerdict_of_lt 0
        (anchor.sink.order_sorted w.anchored) ⟨cp, hperm.mem_iff.mpr hcp, hlt⟩
      rw [hverdict]
      rfl

/-- **The audit of a live store.** The daemon goes on writing and anchoring between the reads of
an audit: of the rows, of the events, of the status columns, of the rows once more, and of the
checkpoints. Where the store and the sink were as they were left, and each read succeeds:
1. without an anchor the audit exits with 0, and with 2 only where the first read found no row;
2. with one it exits with 0 or, where nothing is anchored, with 2; it exits with 1 exactly when a
   row was anchored that came after the second look at the chain;
3. so it accuses no one unless somebody anchors between the last two reads. -/
theorem audit_of_live_store (hkey : env.auditKey = some key)
    (hsign : ∀ m, key.verifyingKey m (key.sign m) = true)
    (hparse : parse hex = some key.verifyingKey) (hverifier : verifier.Under parse hexOf key)
    (hs : Honest key s) (hagreeing : Agreeing s) {stored : List Checkpoint}
    (hstored : ∀ cp ∈ stored, CheckpointOf key s.chainRows cp)
    (steps₁ steps₂ steps₃ steps₄ steps₅ : List WatchStep) :
    let w₁ := (Watch.start s stored).run env key parse hex steps₁
    let w₂ := w₁.run env key parse hex steps₂
    let w₃ := w₂.run env key parse hex steps₃
    let w₄ := w₃.run env key parse hex steps₄
    let w₅ := w₄.run env key parse hex steps₅
    store.Reads w₁.tables w₂.tables w₃.tables → anchor.Reads w₄.tables w₅.anchored →
      let code := runAuditVerify parse hexOf (.ok verifier) store anchor
      (anchor.isConfigured = false → code = if w₁.tables.chainRows = [] then 2 else 0) ∧
        (anchor.isConfigured = true → code =
          if w₅.anchored = [] then 2
          else if ∀ cp ∈ w₅.anchored, cp.seq ≤ w₄.tables.chainRows.length then 0 else 1) ∧
        ((∀ i createdAt db, .anchor i createdAt db ∉ steps₅) → code ≠ 1) := by
  intro w₁ w₂ w₃ w₄ w₅ hreads hanchorReads code
  have hw₁ : Watched key w₁ := (Watched.start hs hstored).run hkey hsign hparse steps₁
  have hw₂ : Watched key w₂ := hw₁.run hkey hsign hparse steps₂
  have hw₃ : Watched key w₃ := hw₂.run hkey hsign hparse steps₃
  have hw₄ : Watched key w₄ := hw₃.run hkey hsign hparse steps₄
  have hw₅ : Watched key w₅ := hw₄.run hkey hsign hparse steps₅
  have hagreeing₁ : Agreeing w₁.tables := agreeing_run hagreeing steps₁
  have hagreeing₃ : Agreeing w₃.tables := agreeing_run (agreeing_run hagreeing₁ steps₂) steps₃
  have hevents : w₁.tables.events <+: w₂.tables.events :=
    (isPrefix_run hkey hsign hparse hw₁ steps₂).2
  have hrows : w₄.tables.chainRows <+: w₅.tables.chainRows :=
    (isPrefix_run hkey hsign hparse hw₄ steps₅).1
  obtain ⟨hchain, hzero⟩ := verifySqlite_of_reads hsign hverifier.chains hreads hw₁.honest
    hw₂.honest hagreeing₃ hevents
  have hcode : code = (verifyConfiguredAnchor parse hexOf anchor verifier).elim
      (if w₁.tables.chainRows = [] then 2 else 0) checkpointOutcomeToExitCode := by
    have hempty : (verifySqlite parse store verifier).chain = .intact 0 ↔
        w₁.tables.chainRows = [] := by
      rw [hchain, VerifyOutcome.intact.injEq, List.length_eq_zero_iff]
    simp only [← hempty]
    exact combined_of_exitCode_eq_zero hzero _
  have hunconfigured (h : anchor.isConfigured = false) :
      code = if w₁.tables.chainRows = [] then 2 else 0 := by
    rw [hcode, verifyConfiguredAnchor, h]
    rfl
  have hconfigured (h : anchor.isConfigured = true) : code = if w₅.anchored = [] then 2
      else if ∀ cp ∈ w₅.anchored, cp.seq ≤ w₄.tables.chainRows.length then 0 else 1 := by
    obtain ⟨outcome, houtcome, hexit⟩ := anchorExitCode_of_reads hsign hverifier.checkpoints h
      hanchorReads hw₅ hrows
    rw [hcode, houtcome, Option.elim_some, hexit]
  refine ⟨hunconfigured, hconfigured, fun hquiet => ?_⟩
  cases h : anchor.isConfigured with
  | false =>
    rw [hunconfigured h]
    split_ifs <;> decide
  | true =>
    have hwithin : ∀ cp ∈ w₅.anchored, cp.seq ≤ w₄.tables.chainRows.length := by
      intro cp hcp
      have hanchored : w₅.anchored = w₄.anchored := anchored_run hquiet
      rw [hanchored] at hcp
      exact (hw₄.anchored cp hcp).seq_le hw₄.appended
    rw [hconfigured h, if_pos hwithin]
    split_ifs <;> decide

end Live

/-! ### Sample audits -/

/-- A store on this host, of which the queries find these tables. -/
def sampleLocalStore (atChain atEvents atStatus : Tables) : LocalStore where
  dbPath := productionDatabasePath
  isPresent := true
  isReachable := true
  openReadOnly := .ok ()
  chain := .ok atChain
  events := .ok atEvents
  status := .ok atStatus
  column r := some r.status

/-- An anchor that can be reached. -/
def sampleAnchor (dbUrl : Option String) (atAnchor : Tables) (anchored : List Checkpoint) :
    AnchorSource where
  dbUrl := dbUrl
  rows := .ok atAnchor
  connect := .ok ()
  sink := sampleSink
  anchored := anchored

theorem sampleLocalStore_reads (atChain atEvents atStatus : Tables) :
    (sampleLocalStore atChain atEvents atStatus).Reads atChain atEvents atStatus :=
  ⟨rfl, rfl, rfl, rfl, rfl, rfl, rfl⟩

theorem sampleAnchor_reads (dbUrl : Option String) (atAnchor : Tables)
    (anchored : List Checkpoint) : (sampleAnchor dbUrl atAnchor anchored).Reads atAnchor anchored :=
  ⟨rfl, rfl, rfl, rfl⟩

/-- The tables of the sample history. -/
def boundTables : Tables :=
  { Tables.empty with
    transactions := [{ boundRow with warnings := [], status := .queued }]
    events := [sampleEvent] }

/-- The audit of the sample history exits with 0. -/
theorem vouched_of_exit_zero_boundTables :
    Vouched boundHistory (sampleLocalStore boundTables boundTables boundTables)
      (sampleAnchor none boundTables []) boundTables boundTables boundTables := by
  obtain ⟨atChain, atEvents, atStatus, hchain, hevents, hstatus, hvouched⟩ :=
    vouched_of_exit_zero boundHistory_ideal (fun _ => none) (fun _ => "ab") (.privateKey boundKey)
      rfl (sampleLocalStore boundTables boundTables boundTables) (sampleAnchor none boundTables [])
      (by decide +kernel)
  obtain rfl := Except.ok.inj hchain
  obtain rfl := Except.ok.inj hevents
  obtain rfl := Except.ok.inj hstatus
  exact hvouched

/-- The audit of the sample store, with these steps before each of its reads. -/
def sampleAudit (steps₁ steps₂ steps₃ steps₄ steps₅ : List WatchStep) : ℕ :=
  let w₁ := (Watch.start .empty []).run plainEnv plainKey plainParse "ab" steps₁
  let w₂ := w₁.run plainEnv plainKey plainParse "ab" steps₂
  let w₃ := w₂.run plainEnv plainKey plainParse "ab" steps₃
  let w₄ := w₃.run plainEnv plainKey plainParse "ab" steps₄
  let w₅ := w₄.run plainEnv plainKey plainParse "ab" steps₅
  runAuditVerify plainParse (fun _ => "ab") (.ok (.privateKey plainKey))
    (sampleLocalStore w₁.tables w₂.tables w₃.tables)
    (sampleAnchor (some "postgres://anchor/checkpoints") w₄.tables w₅.anchored)

/-- After the sample operations the audit passes; one they overtake between its last two reads
accuses the store. -/
theorem audit_of_live_store_anchoredOps :
    sampleAudit anchoredOps [] [] [] [] = 0 ∧ sampleAudit [] [] [] [] anchoredOps = 1 := by
  have hkey : plainEnv.auditKey = some plainKey := rfl
  have hsign : ∀ m, plainKey.verifyingKey m (plainKey.sign m) = true := fun m => decide_eq_true rfl
  have hparse : plainParse "ab" = some plainKey.verifyingKey := rfl
  have hverifier : (Verifier.privateKey plainKey).Under plainParse (fun _ => "ab") plainKey :=
    ⟨rfl, rfl⟩
  have hempty : statusMatchesChain .empty = .ok (.agrees 0) := rfl
  have hagreeing : Agreeing .empty :=
    agreeing_of_agrees (Honest.empty : Honest plainKey .empty) ⟨List.nodup_nil, List.nodup_nil⟩
      hempty
  have hstored : ∀ cp ∈ [], CheckpointOf plainKey Tables.empty.chainRows cp :=
    fun _ h => absurd h List.not_mem_nil
  have hconfigured (t : Tables) (cps : List Checkpoint) :
      (sampleAnchor (some "postgres://anchor/checkpoints") t cps).isConfigured = true := by
    have htrimmed : trim "postgres://anchor/checkpoints" ≠ "" := by decide +kernel
    simp [sampleAnchor, AnchorSource.isConfigured, htrimmed]
  constructor
  · have hquiet := (audit_of_live_store hkey hsign hparse hverifier Honest.empty hagreeing hstored
      anchoredOps [] [] [] [] (sampleLocalStore_reads _ _ _)
      (sampleAnchor_reads (some "postgres://anchor/checkpoints") _ _)).2.1 (hconfigured _ _)
    refine hquiet.trans ?_
    decide +kernel
  · have hovertaken := (audit_of_live_store hkey hsign hparse hverifier Honest.empty hagreeing
      hstored [] [] [] [] anchoredOps (sampleLocalStore_reads _ _ _)
      (sampleAnchor_reads (some "postgres://anchor/checkpoints") _ _)).2.1 (hconfigured _ _)
    refine hovertaken.trans ?_
    decide +kernel

end Sysknife.Cli
