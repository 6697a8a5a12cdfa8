import Sysknife.Lib.Bytes
import Sysknife.Lib.Framing
import Sysknife.Types

/-!
# The signed encodings of the audit log

The messages the audit key signs (`audit_chain.rs`): transaction rows in four generations of
the canonical encoding, approval and status events in two, checkpoints, and approval receipts.
Every message is a domain tag followed by framed fields, and the two chained messages end in
the **unframed** previous hash.

`canonicalBytes` and the `*Message` functions push their fields one by one, as the source
does. `fields` is the list of what they pushed; `chainMessage_eq` and `eventMessage_eq`
connect the two, so that injectivity is read off the field lists through the framing rules:

* `chainMessage_inj`, `eventMessage_inj`, `checkpointMessage_inj`: with previous hashes free of
  the two framing bytes, each message determines its content.
* `chainMessage_split`: without that premise on one side, a transaction message still
  determines everything *except* where the fields end and the previous hash begins.
-/

namespace Sysknife

namespace Audit

/-! ### Field framing -/

/-- Escape of one value byte: the backslash, NUL and the two framing bytes are spelled out,
every other byte stands for itself. -/
def escapeByte (b : UInt8) : Bytes :=
  if b = 0x5C then [0x5C, 0x5C]
  else if b = 0x00 then [0x5C, 0x30]
  else if b = 0x1E then [0x5C, 0x31, 0x45]
  else if b = 0x1F then [0x5C, 0x31, 0x46]
  else [b]

/-- Append `tag 0x1E value 0x1F` to `buf`, escaping the value. -/
def pushField (buf : Bytes) (tag value : String) : Bytes :=
  buf ++ utf8 tag ++ [0x1E] ++ (utf8 value).flatMap escapeByte ++ [0x1F]

private theorem escapeByte_cases (b : UInt8) :
    (b = 0x5C ∧ escapeByte b = [0x5C, 0x5C]) ∨ (b = 0x00 ∧ escapeByte b = [0x5C, 0x30]) ∨
      (b = 0x1E ∧ escapeByte b = [0x5C, 0x31, 0x45]) ∨
      (b = 0x1F ∧ escapeByte b = [0x5C, 0x31, 0x46]) ∨
      (b ≠ 0x5C ∧ b ≠ 0x1E ∧ b ≠ 0x1F ∧ escapeByte b = [b]) := by
  unfold escapeByte
  split_ifs <;> simp_all

/-- No escape is the beginning of another: all escapes open with the backslash, which never
stands for itself, and differ in the second byte or the third. -/
private theorem eq_of_escapeByte_prefix {a b : UInt8} (h : escapeByte a <+: escapeByte b) :
    a = b := by
  rcases escapeByte_cases a with ⟨hav, ha⟩ | ⟨hav, ha⟩ | ⟨hav, ha⟩ | ⟨hav, ha⟩ |
      ⟨hav, -, -, ha⟩ <;>
    rcases escapeByte_cases b with ⟨hbv, hb⟩ | ⟨hbv, hb⟩ | ⟨hbv, hb⟩ | ⟨hbv, hb⟩ |
      ⟨hbv, -, -, hb⟩ <;>
    rw [ha, hb] at h <;> simp [List.cons_prefix_cons] at h <;> simp_all

/-- The escape table as a byte-stuffing code. -/
def stuffing : Escaping UInt8 where
  sep := 0x1E
  term := 0x1F
  esc := escapeByte
  esc_ne_nil b := by
    rcases escapeByte_cases b with ⟨-, h⟩ | ⟨-, h⟩ | ⟨-, h⟩ | ⟨-, h⟩ | ⟨-, -, -, h⟩ <;> simp [h]
  eq_of_esc_prefix _ _ h := eq_of_escapeByte_prefix h
  sep_notMem_esc b := by
    rcases escapeByte_cases b with ⟨-, h⟩ | ⟨-, h⟩ | ⟨-, h⟩ | ⟨-, h⟩ | ⟨-, h1E, -, h⟩ <;>
      simp [h]
    exact Ne.symm h1E
  term_notMem_esc b := by
    rcases escapeByte_cases b with ⟨-, h⟩ | ⟨-, h⟩ | ⟨-, h⟩ | ⟨-, h⟩ | ⟨-, -, h1F, h⟩ <;>
      simp [h]
    exact Ne.symm h1F

/-- A string free of the two framing bytes, as every hex string and the empty one are. -/
def Unframed (s : String) : Prop := 0x1E ∉ utf8 s ∧ 0x1F ∉ utf8 s

instance (s : String) : Decidable (Unframed s) := inferInstanceAs (Decidable (_ ∧ _))

/-- The bytes of a list of tag/value pairs. -/
def encodeFields (fields : List (String × String)) : Bytes :=
  stuffing.record (fields.map fun f => (utf8 f.1, utf8 f.2))

theorem pushField_eq (buf : Bytes) (tag value : String) :
    pushField buf tag value = buf ++ encodeFields [(tag, value)] := by
  simp [pushField, encodeFields, Escaping.field, Escaping.escape, stuffing]

theorem encodeFields_append (fs gs : List (String × String)) :
    encodeFields (fs ++ gs) = encodeFields fs ++ encodeFields gs := by
  simp [encodeFields]

/-- Field lists whose tags cannot be confused with the framing. -/
def PlainTags (fields : List (String × String)) : Prop := ∀ f ∈ fields, Unframed f.1

/-- Plainness only looks at the tags. -/
theorem plainTags_of_tags {fs : List (String × String)} (tags : List String)
    (h : fs.map Prod.fst = tags) (htags : ∀ t ∈ tags, Unframed t) : PlainTags fs :=
  fun f hf => htags f.1 (h ▸ List.mem_map_of_mem hf)

private theorem plainTag_of_plainTags {fs : List (String × String)} (h : PlainTags fs) :
    ∀ f ∈ fs.map fun f => (utf8 f.1, utf8 f.2), stuffing.PlainTag f.1 := by
  intro f hf
  obtain ⟨g, hg, rfl⟩ := List.mem_map.mp hf
  exact h g hg

private theorem map_utf8_injective {fs gs : List (String × String)}
    (h : (fs.map fun f => (utf8 f.1, utf8 f.2)) = gs.map fun f => (utf8 f.1, utf8 f.2)) :
    fs = gs := by
  refine List.map_injective_iff.mpr (fun f g hfg => ?_) h
  exact Prod.ext (utf8_injective (Prod.ext_iff.mp hfg).1) (utf8_injective (Prod.ext_iff.mp hfg).2)

/-- A framed record followed by `p` against one followed by an unframed `q`: `p` can only
absorb further fields of the second record. -/
theorem encodeFields_append_split {fs gs : List (String × String)} {p q : Bytes}
    (hfs : PlainTags fs) (hgs : PlainTags gs) (hq : 0x1F ∉ q)
    (h : encodeFields fs ++ p = encodeFields gs ++ q) :
    ∃ hs, gs = fs ++ hs ∧ p = encodeFields hs ++ q := by
  obtain ⟨ts, hts, rfl⟩ := stuffing.record_append_split (plainTag_of_plainTags hfs)
    (plainTag_of_plainTags hgs) hq h
  obtain ⟨as, bs, rfl, has, rfl⟩ := List.map_eq_append_iff.mp hts
  exact ⟨bs, by rw [map_utf8_injective has], rfl⟩

/-- Framed records with unframed tails are determined by their bytes. -/
theorem encodeFields_append_inj {fs gs : List (String × String)} {p q : Bytes}
    (hfs : PlainTags fs) (hgs : PlainTags gs) (hp : 0x1F ∉ p) (hq : 0x1F ∉ q)
    (h : encodeFields fs ++ p = encodeFields gs ++ q) : fs = gs ∧ p = q := by
  obtain ⟨hmap, hpq⟩ := stuffing.record_append_inj (plainTag_of_plainTags hfs)
    (plainTag_of_plainTags hgs) hp hq h
  exact ⟨map_utf8_injective hmap, hpq⟩

/-! ### Transaction rows -/

/-- Encoding generation of a transaction row, with the fields that generation added. -/
inductive ChainIdentity
  /-- No caller identity at all. -/
  | legacyV1
  /-- Adds the caller's role and the tip of the event chain. -/
  | v2 (callerRole eventTip : String)
  /-- Adds the account that asked. -/
  | v3 (callerRole eventTip callerPrincipal : String)
  /-- The fields of `v3`; `request_hash` is keyed from here on. -/
  | v4 (callerRole eventTip callerPrincipal : String)
  deriving DecidableEq, Repr

/-- The `chain_version` column of an encoding. -/
def ChainIdentity.version : ChainIdentity → ℕ
  | .legacyV1 => 1
  | .v2 .. => 2
  | .v3 .. => 3
  | .v4 .. => 4

/-- The signed content of a transaction row. -/
structure ChainContent where
  seq : ℕ
  keyId : String
  transactionId : String
  requestId : String
  requestHash : String
  actionName : String
  riskLevel : RiskLevel
  summary : String
  approvalId : Option String
  warningsJson : String
  createdAt : String
  identity : ChainIdentity
  deriving DecidableEq, Repr

namespace ChainContent

/-- The canonical encoding, field by field. -/
def canonicalBytes (c : ChainContent) : Bytes :=
  let buf := []
  let buf := pushField buf "seq" (toString c.seq)
  let buf := pushField buf "key_id" c.keyId
  let buf := pushField buf "transaction_id" c.transactionId
  let buf := pushField buf "request_id" c.requestId
  let buf := pushField buf "request_hash" c.requestHash
  let buf := pushField buf "action_name" c.actionName
  let buf := pushField buf "risk_level" c.riskLevel.asStr
  let buf := pushField buf "summary" c.summary
  let buf := pushField buf "approval_id" (c.approvalId.getD "")
  let buf := pushField buf "warnings_json" c.warningsJson
  let buf := pushField buf "created_at" c.createdAt
  match c.identity with
  | .legacyV1 => buf
  | .v2 callerRole eventTip =>
    let buf := pushField buf "chain_version" (toString 2)
    let buf := pushField buf "caller_role" callerRole
    pushField buf "event_tip" eventTip
  | .v3 callerRole eventTip callerPrincipal =>
    let buf := pushField buf "chain_version" (toString 3)
    let buf := pushField buf "caller_role" callerRole
    let buf := pushField buf "event_tip" eventTip
    pushField buf "caller_principal" callerPrincipal
  | .v4 callerRole eventTip callerPrincipal =>
    let buf := pushField buf "chain_version" (toString 4)
    let buf := pushField buf "caller_role" callerRole
    let buf := pushField buf "event_tip" eventTip
    pushField buf "caller_principal" callerPrincipal

/-- The content as far as it is signed: an absent approval commitment is signed like an empty
one. -/
def normalized (c : ChainContent) : ChainContent :=
  { c with approvalId := some (c.approvalId.getD "") }

end ChainContent

/-- The fields a generation appends to the common ones. -/
def ChainIdentity.fields : ChainIdentity → List (String × String)
  | .legacyV1 => []
  | .v2 callerRole eventTip =>
    [("chain_version", "2"), ("caller_role", callerRole), ("event_tip", eventTip)]
  | .v3 callerRole eventTip callerPrincipal =>
    [("chain_version", "3"), ("caller_role", callerRole), ("event_tip", eventTip),
      ("caller_principal", callerPrincipal)]
  | .v4 callerRole eventTip callerPrincipal =>
    [("chain_version", "4"), ("caller_role", callerRole), ("event_tip", eventTip),
      ("caller_principal", callerPrincipal)]

namespace ChainContent

/-- The fields every generation signs. -/
def commonFields (c : ChainContent) : List (String × String) :=
  [("seq", toString c.seq), ("key_id", c.keyId), ("transaction_id", c.transactionId),
    ("request_id", c.requestId), ("request_hash", c.requestHash),
    ("action_name", c.actionName), ("risk_level", c.riskLevel.asStr), ("summary", c.summary),
    ("approval_id", c.approvalId.getD ""), ("warnings_json", c.warningsJson),
    ("created_at", c.createdAt)]

/-- Everything `canonicalBytes` pushes, in order. -/
def fields (c : ChainContent) : List (String × String) := c.commonFields ++ c.identity.fields

theorem canonicalBytes_eq (c : ChainContent) : c.canonicalBytes = encodeFields c.fields := by
  obtain ⟨_, _, _, _, _, _, _, _, _, _, _, identity⟩ := c
  cases identity <;>
    simp only [canonicalBytes, pushField_eq, ← encodeFields_append, List.nil_append,
      fields, commonFields, ChainIdentity.fields] <;> rfl

/-- The tags of the common fields. -/
private def commonTags : List String :=
  ["seq", "key_id", "transaction_id", "request_id", "request_hash", "action_name", "risk_level",
    "summary", "approval_id", "warnings_json", "created_at"]

theorem plainTags_fields (c : ChainContent) : PlainTags c.fields := by
  obtain ⟨_, _, _, _, _, _, _, _, _, _, _, identity⟩ := c
  cases identity with
  | legacyV1 => exact plainTags_of_tags commonTags rfl (by decide)
  | v2 =>
    exact plainTags_of_tags (commonTags ++ ["chain_version", "caller_role", "event_tip"]) rfl
      (by decide)
  | v3 =>
    exact plainTags_of_tags
      (commonTags ++ ["chain_version", "caller_role", "event_tip", "caller_principal"]) rfl
      (by decide)
  | v4 =>
    exact plainTags_of_tags
      (commonTags ++ ["chain_version", "caller_role", "event_tip", "caller_principal"]) rfl
      (by decide)

private theorem identity_fields_injective {i j : ChainIdentity} (h : i.fields = j.fields) :
    i = j := by
  cases i <;> cases j <;> simp_all [ChainIdentity.fields]

/-- The signed fields determine the content, up to an absent approval commitment. -/
theorem normalized_eq_of_fields_eq {c d : ChainContent} (h : c.fields = d.fields) :
    c.normalized = d.normalized := by
  have hlen : c.commonFields.length = d.commonFields.length := rfl
  obtain ⟨hcommon, hidentity⟩ := List.append_inj h hlen
  have hid := identity_fields_injective hidentity
  simp only [commonFields, List.cons.injEq, Prod.mk.injEq, true_and, and_true] at hcommon
  obtain ⟨hseq, hkey, htx, hreq, hhash, haction, hrisk, hsummary, happroval, hwarn, hcreated⟩ :=
    hcommon
  have hseq := toString_nat_injective hseq
  have hrisk := RiskLevel.asStr_injective hrisk
  obtain ⟨_, _, _, _, _, _, _, _, _, _, _, _⟩ := c
  obtain ⟨_, _, _, _, _, _, _, _, _, _, _, _⟩ := d
  simp_all [normalized]

theorem fields_eq_iff_normalized_eq {c d : ChainContent} :
    c.fields = d.fields ↔ c.normalized = d.normalized := by
  refine ⟨normalized_eq_of_fields_eq, fun h => ?_⟩
  have hfields (c : ChainContent) : c.normalized.fields = c.fields := rfl
  rw [← hfields c, h, hfields d]

/-- The sequence number is among the signed fields of every generation. -/
theorem seq_eq_of_fields_eq_append {c d : ChainContent} {hs : List (String × String)}
    (h : d.fields = c.fields ++ hs) : c.seq = d.seq := by
  simp only [fields, commonFields, List.cons_append, List.cons.injEq, Prod.mk.injEq] at h
  exact (toString_nat_injective h.1.2).symm

end ChainContent

/-! ### Events -/

/-- A life-cycle event of an approval receipt or of a transaction's status. -/
inductive AuditEventKind
  | approvalGranted
  | approvalConsumed
  | approvalRevoked
  | statusQueued
  | statusRunning
  | statusSucceeded
  | statusFailed
  | statusCanceled
  | statusRolledBack
  | statusNeedsReboot
  deriving DecidableEq, Repr

namespace AuditEventKind

/-- The event recording that a transaction reached `s`. -/
def ofJobState : JobState → AuditEventKind
  | .queued => .statusQueued
  | .running => .statusRunning
  | .succeeded => .statusSucceeded
  | .failed => .statusFailed
  | .canceled => .statusCanceled
  | .rolledBack => .statusRolledBack
  | .needsReboot => .statusNeedsReboot

/-- Stored and signed spelling. -/
def asStr : AuditEventKind → String
  | .approvalGranted => "approval_granted"
  | .approvalConsumed => "approval_consumed"
  | .approvalRevoked => "approval_revoked"
  | .statusQueued => "status_queued"
  | .statusRunning => "status_running"
  | .statusSucceeded => "status_succeeded"
  | .statusFailed => "status_failed"
  | .statusCanceled => "status_canceled"
  | .statusRolledBack => "status_rolled_back"
  | .statusNeedsReboot => "status_needs_reboot"

theorem asStr_injective {k k' : AuditEventKind} (h : k.asStr = k'.asStr) : k = k' := by
  cases k <;> cases k' <;> first | rfl | exact absurd h (by decide)

end AuditEventKind

/-- Encoding generation of an event row. -/
inductive EventIdentity
  | legacyV1
  /-- Adds the account that granted, spent or revoked the receipt. -/
  | v2 (callerPrincipal : String)
  deriving DecidableEq, Repr

/-- The `chain_version` column of an event encoding. -/
def EventIdentity.version : EventIdentity → ℕ
  | .legacyV1 => 1
  | .v2 _ => 2

/-- The signed content of an event row. -/
structure EventContent where
  seq : ℕ
  keyId : String
  kind : AuditEventKind
  transactionId : String
  receiptDigest : String
  createdAt : String
  identity : EventIdentity
  deriving DecidableEq, Repr

namespace EventContent

/-- The canonical encoding, field by field. -/
def canonicalBytes (e : EventContent) : Bytes :=
  let buf := []
  let buf := pushField buf "seq" (toString e.seq)
  let buf := pushField buf "key_id" e.keyId
  let buf := pushField buf "kind" e.kind.asStr
  let buf := pushField buf "transaction_id" e.transactionId
  let buf := pushField buf "receipt_digest" e.receiptDigest
  let buf := pushField buf "created_at" e.createdAt
  match e.identity with
  | .legacyV1 => buf
  | .v2 callerPrincipal =>
    let buf := pushField buf "event_version" (toString 2)
    pushField buf "caller_principal" callerPrincipal

/-- Everything `canonicalBytes` pushes, in order. -/
def fields (e : EventContent) : List (String × String) :=
  [("seq", toString e.seq), ("key_id", e.keyId), ("kind", e.kind.asStr),
    ("transaction_id", e.transactionId), ("receipt_digest", e.receiptDigest),
    ("created_at", e.createdAt)] ++
  match e.identity with
  | .legacyV1 => []
  | .v2 callerPrincipal => [("event_version", "2"), ("caller_principal", callerPrincipal)]

theorem canonicalBytes_eq (e : EventContent) : e.canonicalBytes = encodeFields e.fields := by
  obtain ⟨_, _, _, _, _, _, identity⟩ := e
  cases identity <;>
    simp only [canonicalBytes, pushField_eq, ← encodeFields_append, List.nil_append, fields] <;>
    rfl

theorem plainTags_fields (e : EventContent) : PlainTags e.fields := by
  obtain ⟨_, _, _, _, _, _, identity⟩ := e
  cases identity with
  | legacyV1 =>
    exact plainTags_of_tags
      ["seq", "key_id", "kind", "transaction_id", "receipt_digest", "created_at"] rfl (by decide)
  | v2 =>
    exact plainTags_of_tags
      ["seq", "key_id", "kind", "transaction_id", "receipt_digest", "created_at",
        "event_version", "caller_principal"] rfl (by decide)

/-- The signed fields determine an event. -/
theorem eq_of_fields_eq {e f : EventContent} (h : e.fields = f.fields) : e = f := by
  obtain ⟨_, _, _, _, _, _, identity⟩ := e
  obtain ⟨_, _, _, _, _, _, identity'⟩ := f
  simp only [fields, List.cons_append, List.nil_append, List.cons.injEq, Prod.mk.injEq,
    true_and] at h
  obtain ⟨hseq, hkey, hkind, htx, hdigest, hcreated, hidentity⟩ := h
  have hseq := toString_nat_injective hseq
  have hkind := AuditEventKind.asStr_injective hkind
  cases identity <;> cases identity' <;> simp_all

end EventContent

/-! ### Signed messages -/

/-- Domain tag of transaction rows. -/
def rowDomain : Bytes := utf8 "sysknife-audit-row-v1\x1f"

/-- Domain tag of checkpoints. -/
def checkpointDomain : Bytes := utf8 "sysknife-checkpoint-v1\x1f"

/-- Domain tag of approval receipts. -/
def approvalDomain : Bytes := utf8 "sysknife-approval-receipt-v1\x1f"

/-- Domain tag of event rows. -/
def eventDomain : Bytes := utf8 "sysknife-audit-event-v1\x1f"

/-- Message signed for a transaction row. The previous hash is appended **unframed**. -/
def chainMessage (content : ChainContent) (prevChainHash : String) : Bytes :=
  rowDomain ++ content.canonicalBytes ++ utf8 prevChainHash

/-- Message signed for an event row. -/
def eventMessage (content : EventContent) (prevChainHash : String) : Bytes :=
  eventDomain ++ content.canonicalBytes ++ utf8 prevChainHash

/-- Message signed for a checkpoint of the chain tip. -/
def checkpointMessage (seq : ℕ) (chainTip createdAt : String) : Bytes :=
  let buf := checkpointDomain
  let buf := pushField buf "seq" (toString seq)
  let buf := pushField buf "chain_tip" chainTip
  pushField buf "created_at" createdAt

/-- Message signed into the approval receipt of a preview. -/
def approvalMessage (transactionId requestHash : String) : Bytes :=
  let buf := approvalDomain
  let buf := pushField buf "txid" transactionId
  pushField buf "reqhash" requestHash

theorem chainMessage_eq (c : ChainContent) (prev : String) :
    chainMessage c prev = rowDomain ++ (encodeFields c.fields ++ utf8 prev) := by
  rw [chainMessage, c.canonicalBytes_eq, List.append_assoc]

theorem eventMessage_eq (e : EventContent) (prev : String) :
    eventMessage e prev = eventDomain ++ (encodeFields e.fields ++ utf8 prev) := by
  rw [eventMessage, e.canonicalBytes_eq, List.append_assoc]

theorem checkpointMessage_eq (seq : ℕ) (tip at_ : String) :
    checkpointMessage seq tip at_ =
      checkpointDomain ++
        encodeFields [("seq", toString seq), ("chain_tip", tip), ("created_at", at_)] := by
  simp only [checkpointMessage, pushField_eq, List.append_assoc, ← encodeFields_append]
  rfl

theorem approvalMessage_eq (tx hash : String) :
    approvalMessage tx hash =
      approvalDomain ++ encodeFields [("txid", tx), ("reqhash", hash)] := by
  simp only [approvalMessage, pushField_eq, List.append_assoc, ← encodeFields_append]
  rfl

/-! ### Domain separation -/

/-- Messages under tags neither of which begins the other never collide. -/
private theorem append_ne_append_of_not_prefix {d d' : Bytes} (h : ¬ d <+: d')
    (h' : ¬ d' <+: d) (x y : Bytes) : d ++ x ≠ d' ++ y := by
  intro heq
  have hd : d <+: d' ++ y := heq ▸ List.prefix_append d x
  rcases List.prefix_or_prefix_of_prefix hd (List.prefix_append d' y) with hdd' | hd'd
  · exact h hdd'
  · exact h' hd'd

theorem chainMessage_ne_eventMessage (c : ChainContent) (p : String) (e : EventContent)
    (q : String) : chainMessage c p ≠ eventMessage e q := by
  rw [chainMessage_eq, eventMessage_eq]
  exact append_ne_append_of_not_prefix (by decide) (by decide) _ _

theorem chainMessage_ne_checkpointMessage (c : ChainContent) (p : String) (seq : ℕ)
    (tip at_ : String) : chainMessage c p ≠ checkpointMessage seq tip at_ := by
  rw [chainMessage_eq, checkpointMessage_eq]
  exact append_ne_append_of_not_prefix (by decide) (by decide) _ _

theorem chainMessage_ne_approvalMessage (c : ChainContent) (p tx hash : String) :
    chainMessage c p ≠ approvalMessage tx hash := by
  rw [chainMessage_eq, approvalMessage_eq]
  exact append_ne_append_of_not_prefix (by decide) (by decide) _ _

/-! ### Injectivity -/

/-- **What a transaction message determines when one previous hash is arbitrary.** Against a
row with an unframed previous hash, the fields of the other row are an initial segment, and
its previous hash carries the remaining fields. -/
theorem chainMessage_split {c d : ChainContent} {p q : String} (hq : 0x1F ∉ utf8 q)
    (h : chainMessage c p = chainMessage d q) :
    ∃ hs, d.fields = c.fields ++ hs ∧ utf8 p = encodeFields hs ++ utf8 q := by
  rw [chainMessage_eq, chainMessage_eq] at h
  exact encodeFields_append_split c.plainTags_fields d.plainTags_fields hq
    (List.append_cancel_left h)

theorem chainMessage_inj {c d : ChainContent} {p q : String} (hp : 0x1F ∉ utf8 p)
    (hq : 0x1F ∉ utf8 q) (h : chainMessage c p = chainMessage d q) :
    c.normalized = d.normalized ∧ p = q := by
  rw [chainMessage_eq, chainMessage_eq] at h
  obtain ⟨hfields, hpq⟩ := encodeFields_append_inj c.plainTags_fields d.plainTags_fields hp hq
    (List.append_cancel_left h)
  exact ⟨ChainContent.normalized_eq_of_fields_eq hfields, utf8_injective hpq⟩

theorem chainMessage_congr {c d : ChainContent} (h : c.normalized = d.normalized)
    (p : String) : chainMessage c p = chainMessage d p := by
  rw [chainMessage_eq, chainMessage_eq, ChainContent.fields_eq_iff_normalized_eq.mpr h]

theorem eventMessage_inj {e f : EventContent} {p q : String} (hp : 0x1F ∉ utf8 p)
    (hq : 0x1F ∉ utf8 q) (h : eventMessage e p = eventMessage f q) : e = f ∧ p = q := by
  rw [eventMessage_eq, eventMessage_eq] at h
  obtain ⟨hfields, hpq⟩ := encodeFields_append_inj e.plainTags_fields f.plainTags_fields hp hq
    (List.append_cancel_left h)
  exact ⟨EventContent.eq_of_fields_eq hfields, utf8_injective hpq⟩

theorem checkpointMessage_inj {seq seq' : ℕ} {tip tip' at_ at' : String}
    (h : checkpointMessage seq tip at_ = checkpointMessage seq' tip' at') :
    seq = seq' ∧ tip = tip' ∧ at_ = at' := by
  rw [checkpointMessage_eq, checkpointMessage_eq] at h
  have htags (seq : ℕ) (tip at_ : String) :
      PlainTags [("seq", toString seq), ("chain_tip", tip), ("created_at", at_)] :=
    plainTags_of_tags ["seq", "chain_tip", "created_at"] rfl (by decide)
  have hnil : (0x1F : UInt8) ∉ ([] : Bytes) := List.not_mem_nil
  obtain ⟨hfields, -⟩ := encodeFields_append_inj (htags _ _ _) (htags _ _ _) hnil hnil
    (by simpa using List.append_cancel_left h)
  simp only [List.cons.injEq, Prod.mk.injEq, true_and, and_true] at hfields
  exact ⟨toString_nat_injective hfields.1, hfields.2.1, hfields.2.2⟩

/-- **The signed encodings are injective and domain-separated.** For previous hashes free of
the framing bytes, a transaction message determines its content (up to an absent approval
commitment) and its previous hash across all four generations, an event message determines
its content and its previous hash, a checkpoint message determines its three fields; and no
transaction message is an event message or a checkpoint message, whatever the text fields
and previous hashes contain. -/
theorem signed_messages_injective_and_separated :
    (∀ (c d : ChainContent) (p q : String), Unframed p → Unframed q →
      (chainMessage c p = chainMessage d q ↔ c.normalized = d.normalized ∧ p = q)) ∧
    (∀ (e f : EventContent) (p q : String), Unframed p → Unframed q →
      eventMessage e p = eventMessage f q → e = f ∧ p = q) ∧
    (∀ (seq seq' : ℕ) (tip tip' at_ at' : String),
      checkpointMessage seq tip at_ = checkpointMessage seq' tip' at' →
        seq = seq' ∧ tip = tip' ∧ at_ = at') ∧
    (∀ (c : ChainContent) (p : String) (e : EventContent) (q : String),
      chainMessage c p ≠ eventMessage e q) ∧
    (∀ (c : ChainContent) (p : String) (seq : ℕ) (tip at_ : String),
      chainMessage c p ≠ checkpointMessage seq tip at_) := by
  refine ⟨fun c d p q hp hq => ⟨chainMessage_inj hp.2 hq.2, ?_⟩,
    fun e f p q hp hq => eventMessage_inj hp.2 hq.2,
    fun _ _ _ _ _ _ => checkpointMessage_inj, chainMessage_ne_eventMessage,
    chainMessage_ne_checkpointMessage⟩
  rintro ⟨hcd, rfl⟩
  exact chainMessage_congr hcd p

/-- Two generations of one row, the older one free of any identity field. -/
theorem signed_messages_separated_v1_v4 :
    chainMessage ⟨1, "v1", "tx\x1f", "req", "hash", "InstallPackage", .high, "a\\0b", none, "[]",
        "2026-01-01T00:00:00Z", .legacyV1⟩ "" ≠
      chainMessage ⟨1, "v1", "tx\x1f", "req", "hash", "InstallPackage", .high, "a\x00b", some "",
        "[]", "2026-01-01T00:00:00Z", .v4 "admin" "" "uid:0"⟩ "abcd" := by
  intro h
  have hinj := (signed_messages_injective_and_separated.1 _ _ "" "abcd" (by decide)
    (by decide)).mp h
  exact absurd hinj.2 (by decide)

end Audit

end Sysknife
