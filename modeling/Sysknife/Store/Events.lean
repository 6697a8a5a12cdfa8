import Sysknife.Store.Chained

/-!
# Verification of the event chain and of its binding

`verifyEventRows` walks the event chain as `verifyRows` walks the transaction chain. The end of
a chain can be cut off without breaking a link, so each transaction row from version 2 on signs
the tip of the event chain as it stood at the insert, and `verifyEventBinding` asks for every
such tip among the events.

* `Written`: the rows and events a store appended, in the order it appended them, with the tips
  the rows committed.
* `exists_events_kept`: if both walks are intact and the binding is consistent, the events up to
  every committed tip are there with all their columns, the principal of a version 1 event
  aside. That column is not signed, and `principal_rewritten` changes it.
-/

namespace Sysknife.Store

open Audit

/-! ### Reading an event row -/

/-- Every kind of event, in the order of the source. -/
def auditEventKinds : List AuditEventKind :=
  [.approvalGranted, .approvalConsumed, .approvalRevoked, .statusQueued, .statusRunning,
    .statusSucceeded, .statusFailed, .statusCanceled, .statusRolledBack, .statusNeedsReboot]

/-- The kind a stored spelling names. -/
def parseEventKind (raw : String) : Option AuditEventKind :=
  auditEventKinds.find? fun kind => kind.asStr == raw

theorem parseEventKind_eq_some_iff {raw : String} {kind : AuditEventKind} :
    parseEventKind raw = some kind ↔ raw = kind.asStr := by
  constructor
  · intro h
    have hspelling : (kind.asStr == raw) = true :=
      List.find?_some (p := fun k => AuditEventKind.asStr k == raw) h
    exact (beq_iff_eq.mp hspelling).symm
  · rintro rfl
    cases kind <;> rfl

namespace EventRow

/-- The encoding an event was signed under, read off its columns. -/
def identity (row : EventRow) : Except RowIdentityError EventIdentity :=
  match row.chainVersion with
  | 1 => .ok .legacyV1
  | 2 => do
    let callerPrincipal ←
      requiredColumn "caller_principal" (row.callerPrincipal.filter (· ≠ ""))
    .ok (.v2 callerPrincipal)
  | other => .error (.unknownVersion other)

/-- The signed content of an event under a given kind and encoding. -/
def contentWith (row : EventRow) (kind : AuditEventKind) (identity : EventIdentity) :
    EventContent where
  seq := row.seq
  keyId := row.keyId
  kind := kind
  transactionId := row.transactionId
  receiptDigest := row.receiptDigest
  createdAt := row.createdAt
  identity := identity

/-- The version column names the encoding. -/
theorem version_of_identity {row : EventRow} {identity : EventIdentity}
    (h : row.identity = .ok identity) : row.chainVersion = identity.version := by
  unfold EventRow.identity at h
  split at h
  · cases h
    assumption
  · obtain ⟨_, -, h⟩ := exists_of_bind_eq_ok h
    cases h
    assumption
  · cases h

theorem eq_some_of_requiredColumn {field value : String} {column : Option String}
    (h : requiredColumn field column = .ok value) : column = some value := by
  cases column with
  | none => cases h
  | some stored => rw [Except.ok.inj h]

/-- A version 2 event stores the principal it signs. -/
theorem callerPrincipal_of_identity {row : EventRow} {callerPrincipal : String}
    (h : row.identity = .ok (.v2 callerPrincipal)) :
    row.callerPrincipal = some callerPrincipal := by
  have hversion := version_of_identity h
  simp only [EventIdentity.version] at hversion
  simp only [EventRow.identity, hversion] at h
  obtain ⟨p, hp, h⟩ := exists_of_bind_eq_ok h
  cases h
  exact (Option.filter_eq_some_iff.mp (eq_some_of_requiredColumn hp)).1

end EventRow

instance : ChainLink EventRow where
  seq := EventRow.seq
  transactionId := EventRow.transactionId
  prevChainHash := EventRow.prevChainHash
  chainHash := EventRow.chainHash

/-- Quoted rendering of an optional string in a diagnostic. -/
def debugOption : Option String → String
  | none => "None"
  | some s => "Some(" ++ debugStr s ++ ")"

/-! ### The two checks -/

/-- The check `verifyEventRows` makes on each event. -/
def checkEvent (vk : VerifyingKey) (expectKeyId : Option String) (row : EventRow) : RowCheck :=
  match parseEventKind row.kind with
  | none => .broken "a known event kind" ("kind=" ++ debugStr row.kind)
  | some kind =>
    match row.identity with
    | .error (.unknownVersion v) =>
      .unverifiable ("event seq=" ++ toString row.seq ++ " declares chain_version=" ++
        toString v ++ ", which this binary cannot reproduce (it understands 1..=2); " ++
        "verify with a build at least as new as the one that wrote the chain")
    | .error (.missingField field) =>
      .broken ("a non-empty " ++ field ++ " on a chain_version=" ++ toString row.chainVersion ++
        " row") (field ++ "=" ++ debugOption row.callerPrincipal)
    | .ok identity =>
      let msg := eventMessage (row.contentWith kind identity) row.prevChainHash
      if signatureOk vk msg row.chainHash then .verified
      else failedSignature "event" row.seq row.keyId expectKeyId row.chainHash

/-- Verify every event's signature and link. -/
def verifyEventRows (vk : VerifyingKey) (expectKeyId : Option String) (rows : List EventRow) :
    VerifyOutcome :=
  walkChain (checkEvent vk expectKeyId) rows

/-- Verification of the event chain with the daemon's own key. -/
def verifyEventChain (key : AuditKey) (rows : List EventRow) : VerifyOutcome :=
  verifyEventRows key.verifyingKey (some key.keyId) rows

/-- Verification of the event chain with only a public key in hexadecimal. -/
def verifyEventChainWithPubkey (parse : String → Option VerifyingKey) (verifyingKeyHex : String)
    (rows : List EventRow) : VerifyOutcome :=
  match parse verifyingKeyHex with
  | some vk => verifyEventRows vk none rows
  | none =>
    .cannotVerify ("invalid public key hex (" ++ toString (utf8 verifyingKeyHex).length ++
      " chars); expected 64 hex chars of a 32-byte Ed25519 public key")

/-- Result of looking for the committed tips among the events. -/
inductive BindingOutcome
  | consistent (bindingsChecked : ℕ)
  | notChecked
  | missingEvent (transactionSeq : ℕ) (eventTip : String)
  deriving DecidableEq, Repr

/-- The loop of `verifyEventBinding` over the transaction rows. -/
def bindingFrom (known : List String) (bindingsChecked : ℕ) : List ChainRow → BindingOutcome
  | [] => .consistent bindingsChecked
  | row :: rows =>
    match row.eventTip with
    | none => bindingFrom known bindingsChecked rows
    | some tip =>
      if tip = "" then bindingFrom known bindingsChecked rows
      else if tip ∉ known then .missingEvent row.seq tip
      else bindingFrom known (bindingsChecked + 1) rows

/-- Look for the event tip of every transaction row among the hashes of the events. -/
def verifyEventBinding (txRows : List ChainRow) (eventRows : List EventRow) : BindingOutcome :=
  bindingFrom (eventRows.map EventRow.chainHash) 0 txRows

/-- The binding is consistent exactly when every non-empty tip is known. -/
theorem exists_bindingFrom_eq_consistent_iff {known : List String} {rows : List ChainRow}
    {k : ℕ} : (∃ n, bindingFrom known k rows = .consistent n) ↔
      ∀ row ∈ rows, ∀ tip, row.eventTip = some tip → tip ≠ "" → tip ∈ known := by
  induction rows generalizing k with
  | nil => simp [bindingFrom]
  | cons row rows ih =>
    rw [List.forall_mem_cons]
    simp only [bindingFrom]
    split
    · rename_i hnone
      rw [ih]
      simp [hnone]
    · rename_i tip htip
      split_ifs with hempty hknown
      · rw [ih]
        simp [htip, hempty]
      · rw [ih]
        simp [htip, hknown]
      · simp [htip, hempty, hknown]

/-! ### What a store wrote -/

/-- The event a row records. -/
def EventRow.Records (row : EventRow) (e : EventContent) : Prop :=
  ∃ kind identity, parseEventKind row.kind = some kind ∧ row.identity = .ok identity ∧
    e = row.contentWith kind identity

/-- The message was signed for this event row. -/
def EventMessageOf (row : EventRow) (m : Bytes) : Prop :=
  ∃ e, row.Records e ∧ m = eventMessage e row.prevChainHash

/-- The event is signed under `key`, in the encoding its columns name. -/
def SignedEvent (key : AuditKey) (row : EventRow) : Prop :=
  ∃ e, row.Records e ∧ row.chainHash = key.eventHash e row.prevChainHash

/-- The event tip an encoding carries; version 1 carries none. -/
def identityTip : ChainIdentity → Option String
  | .legacyV1 => none
  | .v2 _ eventTip => some eventTip
  | .v3 _ eventTip _ => some eventTip
  | .v4 _ eventTip _ => some eventTip

/-- The event tip a transaction row signs. -/
def committedTip (row : ChainRow) : Option String :=
  match row.identity with
  | .ok identity => identityTip identity
  | .error _ => none

/-- The rows and events a store appended under `key`, in any order of the two and in whatever
generation each was written in. A row with a tip names the newest event of its time. -/
inductive Written (key : AuditKey) : List ChainRow → List EventRow → Prop
  | nil : Written key [] []
  | row {rows : List ChainRow} {events : List EventRow} {row : ChainRow}
      (h : Written key rows events) (hseq : row.seq = nextSeq rows)
      (hprev : row.prevChainHash = tipHash rows) (hsigned : SignedRow key row)
      (htip : ∀ tip, row.eventTip = some tip → tip = tipOf events) :
      Written key (rows ++ [row]) events
  | event {rows : List ChainRow} {events : List EventRow} {e : EventRow}
      (h : Written key rows events)
      (hseq : e.seq = (events.getLast?.map EventRow.seq).getD 0 + 1)
      (hprev : e.prevChainHash = tipOf events) (hsigned : SignedEvent key e) :
      Written key rows (events ++ [e])

section Written

variable {key : AuditKey} {rows : List ChainRow} {events : List EventRow}

theorem Written.appended (h : Written key rows events) : Appended key rows := by
  induction h with
  | nil => exact .nil
  | row _ hseq hprev hsigned _ ih => exact .append ih hseq hprev hsigned
  | event _ _ _ _ ih => exact ih

theorem Written.chained (h : Written key rows events) : Chained (SignedEvent key) events := by
  induction h with
  | nil => exact .nil
  | row _ _ _ _ _ ih => exact ih
  | event _ hseq hprev hsigned ih => exact .append ih hseq hprev hsigned

/-- The tip a row names is the tip of a beginning of the events. -/
theorem Written.exists_before (h : Written key rows events) {row : ChainRow} (hrow : row ∈ rows)
    {tip : String} (htip : row.eventTip = some tip) :
    ∃ before, before <+: events ∧ tipOf before = tip := by
  induction h with
  | nil => simp at hrow
  | @row rows events new h _ _ _ hnew ih =>
    rcases List.mem_append.mp hrow with hrow | hrow
    · exact ih hrow
    · obtain rfl := List.mem_singleton.mp hrow
      exact ⟨events, List.prefix_rfl, (hnew tip htip).symm⟩
  | @event rows events e h _ _ _ ih =>
    obtain ⟨before, hbefore, hb⟩ := ih hrow
    exact ⟨before, hbefore.trans (List.prefix_append events [e]), hb⟩

end Written

/-- Everything one key signed, with the events of the store told apart from its checkpoints and
receipts. -/
structure StoreHistory (key : AuditKey) extends SigningHistory key where
  events : List EventRow
  written : Written key rows events
  event_mem_others_iff : ∀ e p,
    eventMessage e p ∈ others ↔ ∃ a ∈ events, EventMessageOf a (eventMessage e p)

/-! ### The log of the events -/

theorem EventRow.Records.seq_eq {row : EventRow} {e : EventContent} (h : row.Records e) :
    e.seq = row.seq := by
  obtain ⟨kind, identity, -, -, rfl⟩ := h
  rfl

section Log

variable {key : AuditKey} {vk : VerifyingKey} {H : StoreHistory key}

/-- Events point at empty or hexadecimal hashes. -/
theorem us_notMem_prevChainHash_event {events pre post : List EventRow} {a : EventRow}
    (h : Chained (SignedEvent key) events) (ha : events = pre ++ a :: post) :
    0x1F ∉ utf8 a.prevChainHash := by
  have hprev : a.prevChainHash = tipOf pre := (h.split ha).2.2.1
  rw [hprev]
  rcases List.eq_nil_or_concat pre with rfl | ⟨pre, last, rfl⟩
  · simp
  · have hlast : events = pre ++ last :: (a :: post) := by simpa using ha
    obtain ⟨e, -, hhash⟩ := (h.split hlast).2.2.2
    have hdecode : Hex.decode last.chainHash =
        some (key.sign (eventMessage e last.prevChainHash)).1 := by
      rw [hhash, AuditKey.eventHash, Hex.decode_encode]
    rw [List.concat_eq_append, tipOf_concat]
    exact us_notMem_of_decode hdecode

/-- The events of a history, as a log under ideal signatures. -/
def StoreHistory.eventLog (H : StoreHistory key)
    (ideal : IdealSignatures vk H.toSigningHistory) : SignedLog EventRow vk where
  rows := H.events
  MessageOf := EventMessageOf
  linked := H.written.chained.linksFrom
  signed a ha := by
    obtain ⟨pre, post, hsplit⟩ := List.append_of_mem ha
    obtain ⟨e, he, hhash⟩ := (H.written.chained.split hsplit).2.2.2
    have hmessage : EventMessageOf a (eventMessage e a.prevChainHash) := ⟨e, he, rfl⟩
    have hvk := ideal.complete _ (.inr ((H.event_mem_others_iff _ _).mpr ⟨a, ha, hmessage⟩))
    have hhash : ChainLink.chainHash a = key.eventHash e a.prevChainHash := hhash
    exact ⟨_, hmessage, hhash ▸ signatureOk_encode hvk⟩
  place m pre a post pre' a' post' hpre hpre' ha ha' := by
    obtain ⟨e, he, rfl⟩ := ha
    obtain ⟨e', he', hm⟩ := ha'
    have hunframed := us_notMem_prevChainHash_event H.written.chained hpre
    have hunframed' := us_notMem_prevChainHash_event H.written.chained hpre'
    have hee' := (eventMessage_inj hunframed hunframed' hm).1
    have hseq : a.seq = a'.seq := by rw [← he.seq_eq, ← he'.seq_eq, hee']
    exact (H.written.chained.eq_of_seq_eq hpre hpre' hseq).1
  prev r a m hr ha hrm ham := by
    obtain ⟨e, -, rfl⟩ := hrm
    obtain ⟨e', -, hm⟩ := ham
    exact (eventMessage_inj hr ha hm).2
  sound r m sig hr hvk := by
    obtain ⟨e, -, rfl⟩ := hr
    rcases ideal.sound _ _ hvk with ⟨row, -, i, -, hm⟩ | hother
    · exact absurd hm.symm (chainMessage_ne_eventMessage _ _ _ _)
    · exact (H.event_mem_others_iff _ _).mp hother
  binding := ideal.binding

/-- The rows agree in every column, the principal of a version 1 event aside. -/
structure SameEvent (r a : EventRow) : Prop where
  columns : r = { a with callerPrincipal := r.callerPrincipal }
  principal : a.chainVersion ≠ 1 → r.callerPrincipal = a.callerPrincipal

theorem sameEvent_of_records {r a : EventRow} {e : EventContent} (hr : r.Records e)
    (ha : a.Records e) (hprev : r.prevChainHash = a.prevChainHash)
    (hhash : r.chainHash = a.chainHash) : SameEvent r a := by
  obtain ⟨kind, identity, hkind, hidentity, rfl⟩ := hr
  obtain ⟨kind', identity', hkind', hidentity', he⟩ := ha
  simp only [EventRow.contentWith, EventContent.mk.injEq] at he
  obtain ⟨hseq, hkey, rfl, htx, hdigest, hcreated, rfl⟩ := he
  have hversion : r.chainVersion = a.chainVersion := by
    rw [EventRow.version_of_identity hidentity, EventRow.version_of_identity hidentity']
  have hspelling : r.kind = a.kind := by
    rw [parseEventKind_eq_some_iff.mp hkind, parseEventKind_eq_some_iff.mp hkind']
  constructor
  · obtain ⟨_, _, _, _, _, _, _, _, _, _⟩ := r
    obtain ⟨_, _, _, _, _, _, _, _, _, _⟩ := a
    simp_all
  · intro hnot
    cases identity with
    | legacyV1 => exact absurd (EventRow.version_of_identity hidentity') hnot
    | v2 callerPrincipal =>
      rw [EventRow.callerPrincipal_of_identity hidentity,
        EventRow.callerPrincipal_of_identity hidentity']

theorem sameEvent_of_matches {ideal : IdealSignatures vk H.toSigningHistory} {r a : EventRow}
    (h : (H.eventLog ideal).Matches r a) (hhash : r.chainHash = a.chainHash) :
    SameEvent r a := by
  obtain ⟨m, ⟨e, he, rfl⟩, ⟨e', he', hm⟩, -⟩ := h.message
  have hprev : r.prevChainHash = a.prevChainHash := h.prev
  have hr : 0x1F ∉ utf8 r.prevChainHash := hprev ▸ h.unframed
  obtain rfl := (eventMessage_inj hr h.unframed hm).1
  exact sameEvent_of_records he he' hprev hhash

theorem exists_message_of_checkEvent_verified {expectKeyId : Option String} {row : EventRow}
    (h : checkEvent vk expectKeyId row = .verified) :
    ∃ m, EventMessageOf row m ∧ signatureOk vk m row.chainHash = true := by
  unfold checkEvent at h
  split at h
  · cases h
  · rename_i kind hkind
    split at h
    · cases h
    · cases h
    · rename_i identity hidentity
      simp only at h
      split_ifs at h with hok
      · exact ⟨_, ⟨_, ⟨kind, identity, hkind, hidentity, rfl⟩, rfl⟩, hok⟩
      · exact absurd h (failedSignature_ne_verified _ _ _ _ _)

end Log

/-! ### Truncation is visible -/

theorem committedTip_eq_some_iff {row : ChainRow} {tip : String} :
    committedTip row = some tip ↔
      ∃ identity, row.identity = .ok identity ∧ identityTip identity = some tip := by
  unfold committedTip
  split
  · rename_i identity hidentity
    simp [hidentity]
  · rename_i hidentity
    simp [hidentity]

/-- A row stores the tip it signs. -/
theorem eventTip_of_committedTip {row : ChainRow} {tip : String}
    (h : committedTip row = some tip) : row.eventTip = some tip := by
  obtain ⟨identity, hidentity, htip⟩ := committedTip_eq_some_iff.mp h
  unfold ChainRow.identity at hidentity
  split at hidentity
  · cases hidentity
    cases htip
  · obtain ⟨_, -, h⟩ := exists_of_bind_eq_ok hidentity
    obtain ⟨_, hstored, h⟩ := exists_of_bind_eq_ok h
    cases h
    exact (EventRow.eq_some_of_requiredColumn hstored).trans htip
  · obtain ⟨_, -, h⟩ := exists_of_bind_eq_ok hidentity
    obtain ⟨_, hstored, h⟩ := exists_of_bind_eq_ok h
    obtain ⟨_, -, h⟩ := exists_of_bind_eq_ok h
    cases h
    exact (EventRow.eq_some_of_requiredColumn hstored).trans htip
  · obtain ⟨_, -, h⟩ := exists_of_bind_eq_ok hidentity
    obtain ⟨_, hstored, h⟩ := exists_of_bind_eq_ok h
    obtain ⟨_, -, h⟩ := exists_of_bind_eq_ok h
    cases h
    exact (EventRow.eq_some_of_requiredColumn hstored).trans htip
  · cases hidentity

/-- The tip is among the signed fields. -/
theorem committedTip_eq_of_sameSigned {r a : ChainRow} (h : SameSigned r a) :
    committedTip r = committedTip a := by
  obtain ⟨i, j, hi, hj, hij⟩ := h.fields
  have hidentity : i = j := congrArg ChainContent.identity hij
  simp only [committedTip, hi, hj, hidentity]

section Truncation

variable {key : AuditKey} {vk : VerifyingKey} {H : StoreHistory key}

/-- A tip a verified row commits is the tip of a beginning of the appended events. -/
theorem exists_before_of_intact (ideal : IdealSignatures vk H.toSigningHistory)
    {expectKeyId : Option String} {rows : List ChainRow} {n : ℕ}
    (hrows : verifyRows vk expectKeyId rows = .intact n) {row : ChainRow} (hrow : row ∈ rows)
    {tip : String} (htip : committedTip row = some tip) :
    ∃ before, before <+: H.events ∧ tipOf before = tip := by
  obtain ⟨pre, hpre, hmatch⟩ := exists_sameSigned_of_intact ideal hrows
  obtain ⟨rs, rs', rfl⟩ := List.append_of_mem hrow
  obtain ⟨as, bs, rfl, -, hbs⟩ := exists_append_of_forall₂ hmatch
  obtain ⟨a, bs, ⟨hsame, -⟩, -, rfl⟩ := List.forall₂_cons_left_iff.mp hbs
  have ha : a ∈ H.rows := hpre.subset (by simp)
  rw [committedTip_eq_of_sameSigned hsame] at htip
  exact H.written.exists_before ha (eventTip_of_committedTip htip)

/-- Rows and events that verify and are bound to each other hold all events up to a tip one of
the rows commits. -/
theorem exists_kept_of_committedTip (ideal : IdealSignatures vk H.toSigningHistory)
    {expectKeyId expectKeyId' : Option String} {rows : List ChainRow} {events : List EventRow}
    {n n' k : ℕ} (hrows : verifyRows vk expectKeyId rows = .intact n)
    (hevents : verifyEventRows vk expectKeyId' events = .intact n')
    (hbinding : verifyEventBinding rows events = .consistent k) {row : ChainRow}
    (hrow : row ∈ rows) {tip : String} (htip : committedTip row = some tip) :
    ∃ before, before <+: H.events ∧ tipOf before = tip ∧
      ∃ kept, kept <+: events ∧ List.Forall₂ SameEvent kept before := by
  obtain ⟨before, hbefore, hb⟩ := exists_before_of_intact ideal hrows hrow htip
  refine ⟨before, hbefore, hb, ?_⟩
  rcases List.eq_nil_or_concat before with rfl | ⟨before, last, rfl⟩
  · exact ⟨[], List.nil_prefix, .nil⟩
  rw [List.concat_eq_append] at hbefore hb ⊢
  rw [tipOf_concat] at hb
  obtain ⟨post, hpost⟩ := hbefore
  have hsplit : H.events = before ++ last :: post := by simpa using hpost.symm
  -- the tip is the hash of an appended event, so it is not empty and has to be known
  obtain ⟨m, -, hok⟩ := (H.eventLog ideal).signed last (by simp [StoreHistory.eventLog, hsplit])
  have hnonempty : tip ≠ "" := hb ▸ ne_empty_of_signatureOk hok
  have hknown := exists_bindingFrom_eq_consistent_iff.mp ⟨k, hbinding⟩ row hrow tip
    (eventTip_of_committedTip htip) hnonempty
  obtain ⟨r, hr, hrhash⟩ := List.mem_map.mp hknown
  have hhash : ChainLink.chainHash r = ChainLink.chainHash last := hrhash.trans hb.symm
  obtain ⟨kept, hkept, hmatch⟩ := SignedLog.exists_kept_of_chainHash_mem (L := H.eventLog ideal)
    (fun _ => exists_message_of_checkEvent_verified) hevents hsplit hr hhash
  exact ⟨kept, hkept, hmatch.imp fun _ _ h => sameEvent_of_matches h.1 h.2⟩

/-- **Truncation of the event chain is visible.** If the transaction rows and the events verify
as intact and the binding is consistent, then up to the tip that any of the rows commits the
events present are the ones the store appended, in order and in every column, the principal of
a version 1 event aside. -/
theorem exists_events_kept (ideal : IdealSignatures vk H.toSigningHistory)
    (expectKeyId expectKeyId' : Option String) (rows : List ChainRow) (events : List EventRow)
    {n n' k : ℕ} (hrows : verifyRows vk expectKeyId rows = .intact n)
    (hevents : verifyEventRows vk expectKeyId' events = .intact n')
    (hbinding : verifyEventBinding rows events = .consistent k) :
    ∀ row ∈ rows, ∀ tip, committedTip row = some tip →
      ∃ before, before <+: H.events ∧ tipOf before = tip ∧
        ∃ kept, kept <+: events ∧ List.Forall₂ SameEvent kept before := by
  intro row hrow tip htip
  exact exists_kept_of_committedTip ideal hrows hevents hbinding hrow htip

end Truncation

/-! ### A sample history -/

/-- The event of a sample history: a transaction was started. -/
def sampleEvent : EventRow where
  seq := 1
  keyId := "v1"
  kind := "status_running"
  transactionId := "tx-0"
  receiptDigest := ""
  createdAt := "2026-01-01T00:00:00.000Z"
  prevChainHash := ""
  chainHash := Hex.encode (checksum (eventMessage
    ⟨1, "v1", .statusRunning, "tx-0", "", "2026-01-01T00:00:00.000Z", .legacyV1⟩ "")).1
  chainVersion := 1
  callerPrincipal := none

/-- The transaction row of the sample history, which commits the event. -/
def boundRow : ChainRow :=
  { sampleRow₁ with
    eventTip := some sampleEvent.chainHash
    chainHash := Hex.encode (checksum (chainMessage
      (sampleRow₁.contentWith (.v4 "admin" sampleEvent.chainHash "uid:1000")) "")).1 }

theorem boundRow_identity :
    boundRow.identity = .ok (.v4 "admin" sampleEvent.chainHash "uid:1000") := rfl

/-- The two messages of the sample history. -/
def boundMessages : List Bytes :=
  [chainMessage (boundRow.contentWith (.v4 "admin" sampleEvent.chainHash "uid:1000")) "",
    eventMessage (sampleEvent.contentWith .statusRunning .legacyV1) ""]

/-- A key that signed the event and the row. -/
def boundKey : AuditKey where
  keyId := "v1"
  sign := checksum
  verifyingKey m sig := decide (m ∈ boundMessages ∧ sig = checksum m)

theorem sampleEvent_records {e : EventContent} :
    sampleEvent.Records e ↔ e = sampleEvent.contentWith .statusRunning .legacyV1 := by
  constructor
  · rintro ⟨kind, identity, hkind, hidentity, rfl⟩
    obtain rfl : AuditEventKind.statusRunning = kind := Option.some.inj hkind
    obtain rfl : EventIdentity.legacyV1 = identity := Except.ok.inj hidentity
    rfl
  · rintro rfl
    exact ⟨_, _, rfl, rfl, rfl⟩

theorem signedRow_boundRow : SignedRow boundKey boundRow :=
  ⟨_, boundRow_identity, by decide +kernel⟩

/-- The history of the event and the row after it. -/
def boundHistory : StoreHistory boundKey where
  rows := [boundRow]
  appended := .append .nil rfl rfl signedRow_boundRow
  others := [eventMessage (sampleEvent.contentWith .statusRunning .legacyV1) ""]
  others_separate := by simp
  events := [sampleEvent]
  written := by
    have hevent : Written boundKey [] [sampleEvent] :=
      .event .nil rfl rfl ⟨_, sampleEvent_records.mpr rfl, rfl⟩
    refine .row hevent rfl rfl signedRow_boundRow fun tip htip => ?_
    exact (Option.some.inj htip).symm
  event_mem_others_iff e p := by
    rw [List.mem_singleton]
    constructor
    · intro h
      exact ⟨sampleEvent, List.mem_singleton.mpr rfl, _, sampleEvent_records.mpr rfl, h⟩
    · rintro ⟨a, ha, e', he', h⟩
      obtain rfl := List.mem_singleton.mp ha
      rw [h, sampleEvent_records.mp he']
      rfl

theorem boundHistory_ideal :
    IdealSignatures boundKey.verifyingKey boundHistory.toSigningHistory := by
  refine idealSignatures_of_messages (fun m => ?_) (by decide +kernel)
  constructor
  · rintro (⟨row, hrow, i, hi, rfl⟩ | h)
    · obtain rfl := List.mem_singleton.mp hrow
      obtain rfl := Except.ok.inj (boundRow_identity.symm.trans hi)
      exact List.mem_cons_self
    · rw [List.mem_singleton.mp h]
      exact List.mem_cons_of_mem _ List.mem_cons_self
  · intro hm
    rcases List.mem_pair.mp hm with rfl | rfl
    · exact .inl ⟨boundRow, List.mem_singleton.mpr rfl, _, boundRow_identity, rfl⟩
    · exact .inr (List.mem_singleton.mpr rfl)

/-- The sample rows pass all three checks, and the committed event is there. -/
theorem boundRow_events_kept :
    committedTip boundRow = some sampleEvent.chainHash ∧
      ∃ before, before <+: boundHistory.events ∧ tipOf before = sampleEvent.chainHash ∧
        ∃ kept, kept <+: [sampleEvent] ∧ List.Forall₂ SameEvent kept before := by
  have hrows : verifyRows boundKey.verifyingKey (some "v1") [boundRow] = .intact 1 := by
    decide +kernel
  have hevents : verifyEventRows boundKey.verifyingKey (some "v1") [sampleEvent] = .intact 1 := by
    decide +kernel
  have hbinding : verifyEventBinding [boundRow] [sampleEvent] = .consistent 1 := by decide +kernel
  have htip : committedTip boundRow = some sampleEvent.chainHash := rfl
  exact ⟨htip, exists_events_kept boundHistory_ideal (some "v1") (some "v1") [boundRow]
    [sampleEvent] hrows hevents hbinding boundRow (List.mem_singleton.mpr rfl) _ htip⟩

/-- **An unsigned column.** With all three checks passed, a version 1 event can still have been
attributed to an account: its principal is not among the signed fields, and no encoding asks
that the column be empty. -/
theorem principal_rewritten :
    ¬ ∀ (key : AuditKey) (vk : VerifyingKey) (H : StoreHistory key),
      IdealSignatures vk H.toSigningHistory →
      ∀ (expectKeyId expectKeyId' : Option String) (rows : List ChainRow)
        (events : List EventRow) (n n' k : ℕ),
        verifyRows vk expectKeyId rows = .intact n →
        verifyEventRows vk expectKeyId' events = .intact n' →
        verifyEventBinding rows events = .consistent k →
        ∀ row ∈ rows, ∀ tip, committedTip row = some tip →
          ∃ before, before <+: H.events ∧ tipOf before = tip ∧ ∀ e ∈ before, e ∈ events := by
  intro hall
  let events : List EventRow := [{ sampleEvent with callerPrincipal := some "uid:0" }]
  have hrows : verifyRows boundKey.verifyingKey (some "v1") [boundRow] = .intact 1 := by
    decide +kernel
  have hevents : verifyEventRows boundKey.verifyingKey (some "v1") events = .intact 1 := by
    decide +kernel
  have hbinding : verifyEventBinding [boundRow] events = .consistent 1 := by decide +kernel
  obtain ⟨before, hbefore, htip, hkept⟩ := hall boundKey _ boundHistory boundHistory_ideal
    (some "v1") (some "v1") [boundRow] events 1 1 1 hrows hevents hbinding boundRow
    (List.mem_singleton.mpr rfl) _ rfl
  -- the only beginning with that tip is the whole of the one event
  rcases List.eq_nil_or_concat before with rfl | ⟨pre, last, rfl⟩
  · exact absurd htip (by decide +kernel)
  have hlast : last ∈ boundHistory.events := hbefore.subset (by simp)
  obtain rfl := List.mem_singleton.mp hlast
  have hmem := hkept sampleEvent (by simp)
  exact absurd hmem (by decide +kernel)

end Sysknife.Store
