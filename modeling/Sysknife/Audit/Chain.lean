import Sysknife.Audit.Walk

/-!
# Verification of the transaction chain

`verifyRows` walks the rows in sequence order, re-encodes each in the generation its columns
name and checks its signature. `IdealSignatures` states what the daemon relies on against a
`SigningHistory`, the rows the store appended together with every other message its key signed.

* `verifyRows_intact_isPrefix`: an intact chain is a prefix of what was appended.
* `signed_iff_unframed_of_mem_countedRows`: a counted row is one the store signed exactly when
  its own previous hash carries no field terminator. A conceded row hands an arbitrary previous
  hash to its successor, so the premise can fail, and `countedRows_retyped_row` shows a row
  signed at version 4 counted as a version 1 row.
-/

namespace Sysknife.Audit

/-! ### Rows and their encodings -/

/-- One row of the chain, as read from the store. -/
structure ChainRow where
  seq : ℕ
  keyId : String
  transactionId : String
  requestId : String
  requestHash : String
  actionName : String
  riskLevel : RiskLevel
  summary : String
  approvalId : Option String
  warningsJson : String
  createdAt : String
  prevChainHash : String
  chainHash : String
  chainVersion : ℕ
  callerRole : Option String
  eventTip : Option String
  callerPrincipal : Option String
  deriving DecidableEq, Repr

/-- Why the columns of a row describe no encoding. -/
inductive RowIdentityError
  | unknownVersion (version : ℕ)
  | missingField (field : String)
  deriving DecidableEq, Repr

/-- A column an encoding cannot do without. -/
def requiredColumn (field : String) : Option String → Except RowIdentityError String
  | some value => .ok value
  | none => .error (.missingField field)

namespace ChainRow

/-- The encoding a row was signed under, read off its columns. An empty principal names nobody
and counts as absent. -/
def identity (row : ChainRow) : Except RowIdentityError ChainIdentity :=
  match row.chainVersion with
  | 1 => .ok .legacyV1
  | 2 => do
    let callerRole ← requiredColumn "caller_role" row.callerRole
    let eventTip ← requiredColumn "event_tip" row.eventTip
    .ok (.v2 callerRole eventTip)
  | 3 => do
    let callerRole ← requiredColumn "caller_role" row.callerRole
    let eventTip ← requiredColumn "event_tip" row.eventTip
    let callerPrincipal ←
      requiredColumn "caller_principal" (row.callerPrincipal.filter (· ≠ ""))
    .ok (.v3 callerRole eventTip callerPrincipal)
  | 4 => do
    let callerRole ← requiredColumn "caller_role" row.callerRole
    let eventTip ← requiredColumn "event_tip" row.eventTip
    let callerPrincipal ←
      requiredColumn "caller_principal" (row.callerPrincipal.filter (· ≠ ""))
    .ok (.v4 callerRole eventTip callerPrincipal)
  | other => .error (.unknownVersion other)

/-- The signed content of a row under a given encoding. -/
def contentWith (row : ChainRow) (identity : ChainIdentity) : ChainContent where
  seq := row.seq
  keyId := row.keyId
  transactionId := row.transactionId
  requestId := row.requestId
  requestHash := row.requestHash
  actionName := row.actionName
  riskLevel := row.riskLevel
  summary := row.summary
  approvalId := row.approvalId
  warningsJson := row.warningsJson
  createdAt := row.createdAt
  identity := identity

/-- The version column names the encoding. -/
theorem version_of_identity {row : ChainRow} {identity : ChainIdentity}
    (h : row.identity = .ok identity) : row.chainVersion = identity.version := by
  unfold ChainRow.identity at h
  split at h
  · cases h
    assumption
  · obtain ⟨_, -, h⟩ := exists_of_bind_eq_ok h
    obtain ⟨_, -, h⟩ := exists_of_bind_eq_ok h
    cases h
    assumption
  · obtain ⟨_, -, h⟩ := exists_of_bind_eq_ok h
    obtain ⟨_, -, h⟩ := exists_of_bind_eq_ok h
    obtain ⟨_, -, h⟩ := exists_of_bind_eq_ok h
    cases h
    assumption
  · obtain ⟨_, -, h⟩ := exists_of_bind_eq_ok h
    obtain ⟨_, -, h⟩ := exists_of_bind_eq_ok h
    obtain ⟨_, -, h⟩ := exists_of_bind_eq_ok h
    cases h
    assumption
  · cases h

end ChainRow

instance : ChainLink ChainRow where
  seq := ChainRow.seq
  transactionId := ChainRow.transactionId
  prevChainHash := ChainRow.prevChainHash
  chainHash := ChainRow.chainHash

/-! ### Checking rows -/

/-- How an absent, an empty and a filled column print. -/
def describeColumn (field : String) : Option String → String
  | none => field ++ "=NULL"
  | some "" => field ++ "='' (empty, not NULL)"
  | some other => field ++ "=" ++ debugStr other

/-- The check `verifyRows` makes on each row. -/
def checkRow (vk : VerifyingKey) (expectKeyId : Option String) (row : ChainRow) : RowCheck :=
  match row.identity with
  | .error (.unknownVersion v) =>
    .unverifiable ("row seq=" ++ toString row.seq ++ " declares chain_version=" ++ toString v ++
      ", which this binary cannot reproduce (it understands 1..=4); " ++
      "verify with a build at least as new as the one that wrote the chain")
  | .error (.missingField field) =>
    let stored :=
      if field = "caller_role" then row.callerRole
      else if field = "event_tip" then row.eventTip
      else if field = "caller_principal" then row.callerPrincipal
      else none
    .broken ("chain_version=" ++ toString row.chainVersion ++ " row carrying a non-empty " ++ field)
      (describeColumn field stored)
  | .ok identity =>
    let msg := chainMessage (row.contentWith identity) row.prevChainHash
    if signatureOk vk msg row.chainHash then .verified
    else failedSignature "row" row.seq row.keyId expectKeyId row.chainHash

/-- Verify every row's signature and link. With `expectKeyId`, a row of another key generation
is still tried before it is conceded. -/
def verifyRows (vk : VerifyingKey) (expectKeyId : Option String) (rows : List ChainRow) :
    VerifyOutcome :=
  walkChain (checkRow vk expectKeyId) rows

/-- Verification with the daemon's own key. -/
def verifyChain (key : AuditKey) (rows : List ChainRow) : VerifyOutcome :=
  verifyRows key.verifyingKey (some key.keyId) rows

/-- Verification with only a public key in hexadecimal, which `parse` reads; the key generation
is not asked for. -/
def verifyChainWithPubkey (parse : String → Option VerifyingKey) (verifyingKeyHex : String)
    (rows : List ChainRow) : VerifyOutcome :=
  match parse verifyingKeyHex with
  | some vk => verifyRows vk none rows
  | none =>
    .cannotVerify ("invalid public key hex (" ++ toString (utf8 verifyingKeyHex).length ++
      " chars); expected 64 hex chars of a 32-byte Ed25519 public key")

/-- A verified row carries a well-formed signature that the key accepts for its message. -/
theorem of_checkRow_verified {vk : VerifyingKey} {expectKeyId : Option String} {row : ChainRow}
    (h : checkRow vk expectKeyId row = .verified) :
    ∃ identity sig, row.identity = .ok identity ∧ Hex.decode row.chainHash = some sig.1 ∧
      vk (chainMessage (row.contentWith identity) row.prevChainHash) sig = true := by
  unfold checkRow at h
  split at h
  · cases h
  · cases h
  · rename_i identity hidentity
    simp only at h
    split_ifs at h with hsig
    · obtain ⟨sig, hdecode, hvk⟩ := signatureOk_iff.mp hsig
      exact ⟨identity, sig, hidentity, hdecode, hvk⟩
    · exact absurd h (failedSignature_ne_verified _ _ _ _ _)

/-! ### What the store signed -/

/-- The hash the next appended row has to point at. -/
def tipHash (rows : List ChainRow) : String := (rows.getLast?.map ChainRow.chainHash).getD ""

/-- The sequence number of the next appended row. -/
def nextSeq (rows : List ChainRow) : ℕ := (rows.getLast?.map ChainRow.seq).getD 0 + 1

/-- The row is signed under `key`, in the encoding its columns name. -/
def SignedRow (key : AuditKey) (row : ChainRow) : Prop :=
  ∃ identity, row.identity = .ok identity ∧
    row.chainHash = key.chainHash (row.contentWith identity) row.prevChainHash

/-- The rows a store appended under `key`, oldest first, whatever generation each was written
in. -/
inductive Appended (key : AuditKey) : List ChainRow → Prop
  | nil : Appended key []
  | append {rows : List ChainRow} {row : ChainRow} (hrows : Appended key rows)
      (hseq : row.seq = nextSeq rows) (hprev : row.prevChainHash = tipHash rows)
      (hsigned : SignedRow key row) : Appended key (rows ++ [row])

/-- Everything one key signed: the transaction rows the store appended, and the events,
checkpoints and receipts beside them. -/
structure SigningHistory (key : AuditKey) where
  rows : List ChainRow
  appended : Appended key rows
  others : List Bytes
  others_separate : ∀ m ∈ others, (∃ e p, m = eventMessage e p) ∨
    (∃ seq tip at_, m = checkpointMessage seq tip at_) ∨ ∃ tx hash, m = approvalMessage tx hash

/-- The message was signed for this appended row. -/
def MessageOf (row : ChainRow) (m : Bytes) : Prop :=
  ∃ identity, row.identity = .ok identity ∧
    m = chainMessage (row.contentWith identity) row.prevChainHash

/-- The messages signed in a history. -/
def SigningHistory.Signed {key : AuditKey} (H : SigningHistory key) (m : Bytes) : Prop :=
  (∃ row ∈ H.rows, MessageOf row m) ∨ m ∈ H.others

/-- Nothing verifies that was not signed. -/
def Unforgeable {key : AuditKey} (vk : VerifyingKey) (H : SigningHistory key) : Prop :=
  ∀ m sig, vk m sig = true → H.Signed m

/-- Ideal signatures over a history: nothing unsigned verifies, what was signed does, and one
signature stands for one message. -/
structure IdealSignatures {key : AuditKey} (vk : VerifyingKey) (H : SigningHistory key) :
    Prop where
  sound : Unforgeable vk H
  complete : ∀ m, H.Signed m → vk m (key.sign m) = true
  binding : ∀ m m' sig, vk m sig = true → vk m' sig = true → m = m'

/-- The two rows agree in their encoding and in every field it signs. -/
structure SameSigned (r a : ChainRow) : Prop where
  version : r.chainVersion = a.chainVersion
  fields : ∃ i j, r.identity = .ok i ∧ a.identity = .ok j ∧
    (r.contentWith i).normalized = (a.contentWith j).normalized

theorem sameSigned_of_normalized {r a : ChainRow} {i j : ChainIdentity}
    (hr : r.identity = .ok i) (ha : a.identity = .ok j)
    (h : (r.contentWith i).normalized = (a.contentWith j).normalized) : SameSigned r a := by
  have hij : i = j := congrArg ChainContent.identity h
  refine ⟨?_, i, j, hr, ha, h⟩
  rw [ChainRow.version_of_identity hr, ChainRow.version_of_identity ha, hij]

theorem SameSigned.seq_eq {r a : ChainRow} (h : SameSigned r a) : r.seq = a.seq := by
  obtain ⟨i, j, -, -, hij⟩ := h.fields
  exact congrArg ChainContent.seq hij

/-! ### The shape of an appended chain -/

section Appended

variable {key : AuditKey}

theorem appended_iff_chained {rows : List ChainRow} :
    Appended key rows ↔ Chained (SignedRow key) rows := by
  constructor
  · intro h
    induction h with
    | nil => exact .nil
    | append _ hseq hprev hsigned ih => exact .append ih hseq hprev hsigned
  · intro h
    induction h with
    | nil => exact .nil
    | append _ hseq hprev hsigned ih => exact .append ih hseq hprev hsigned

/-- Every row of an appended chain sits where its columns say: its number counts the rows
before it, it points at the last of them, and it is signed. -/
theorem Appended.split {rows pre post : List ChainRow} {row : ChainRow}
    (h : Appended key rows) (hrows : rows = pre ++ row :: post) :
    Appended key pre ∧ row.seq = pre.length + 1 ∧ row.prevChainHash = tipHash pre ∧
      SignedRow key row := by
  obtain ⟨hpre, hrow⟩ := (appended_iff_chained.mp h).split hrows
  exact ⟨appended_iff_chained.mpr hpre, hrow⟩

/-- Sequence numbers identify the rows of an appended chain. -/
theorem Appended.eq_of_seq_eq {rows : List ChainRow} {a b : ChainRow} (h : Appended key rows)
    (ha : a ∈ rows) (hb : b ∈ rows) (hseq : a.seq = b.seq) : a = b := by
  obtain ⟨pre, post, hsplit⟩ := List.append_of_mem ha
  obtain ⟨pre', post', hsplit'⟩ := List.append_of_mem hb
  exact ((appended_iff_chained.mp h).eq_of_seq_eq hsplit hsplit' hseq).2

/-- The hash a signed row stores is the rendering of a signature. -/
theorem SignedRow.decode_chainHash {row : ChainRow} (h : SignedRow key row) :
    ∃ m, MessageOf row m ∧ Hex.decode row.chainHash = some (key.sign m).1 := by
  obtain ⟨identity, hidentity, hhash⟩ := h
  exact ⟨_, ⟨identity, hidentity, rfl⟩, by rw [hhash, AuditKey.chainHash, Hex.decode_encode]⟩

end Appended

/-! ### A sample chain -/

/-- A stand-in for a signature: the length of the message and the sum of its bytes. -/
def checksum (m : Bytes) : Signature :=
  ⟨List.replicate 62 0 ++ [UInt8.ofNat m.length, m.foldl (· + ·) 0], by simp⟩

/-- First row of a sample chain, as an administrator's preview appends it. -/
def sampleRow₁ : ChainRow where
  seq := 1
  keyId := "v1"
  transactionId := "tx-1"
  requestId := "req-1"
  requestHash := "h1"
  actionName := "UpdateSystem"
  riskLevel := .high
  summary := "Update"
  approvalId := some "d1"
  warningsJson := "[]"
  createdAt := "2026-01-01T00:00:00.000Z"
  prevChainHash := ""
  chainHash := Hex.encode (checksum (chainMessage
    ⟨1, "v1", "tx-1", "req-1", "h1", "UpdateSystem", .high, "Update", some "d1", "[]",
      "2026-01-01T00:00:00.000Z", .v4 "admin" "" "uid:1000"⟩ "")).1
  chainVersion := 4
  callerRole := some "admin"
  eventTip := some ""
  callerPrincipal := some "uid:1000"

/-- Second row of the sample chain. -/
def sampleRow₂ : ChainRow where
  seq := 2
  keyId := "v1"
  transactionId := "tx-2"
  requestId := "req-2"
  requestHash := "h2"
  actionName := "GetSystemState"
  riskLevel := .low
  summary := "Read the state"
  approvalId := some "d2"
  warningsJson := "[]"
  createdAt := "2026-01-01T00:00:01.000Z"
  prevChainHash := sampleRow₁.chainHash
  chainHash := Hex.encode (checksum (chainMessage
    ⟨2, "v1", "tx-2", "req-2", "h2", "GetSystemState", .low, "Read the state", some "d2", "[]",
      "2026-01-01T00:00:01.000Z", .v4 "observer" "" "uid:1001"⟩ sampleRow₁.chainHash)).1
  chainVersion := 4
  callerRole := some "observer"
  eventTip := some ""
  callerPrincipal := some "uid:1001"

/-- The messages of the two sample rows. -/
def sampleMessages : List Bytes :=
  [chainMessage (sampleRow₁.contentWith (.v4 "admin" "" "uid:1000")) sampleRow₁.prevChainHash,
    chainMessage (sampleRow₂.contentWith (.v4 "observer" "" "uid:1001")) sampleRow₂.prevChainHash]

/-- A key that signed the two sample rows. -/
def sampleKey : AuditKey where
  keyId := "v1"
  sign := checksum
  verifyingKey m sig := decide (m ∈ sampleMessages ∧ sig = checksum m)

/-- The history of the two sample rows. -/
def sampleHistory : SigningHistory sampleKey where
  rows := [sampleRow₁, sampleRow₂]
  appended :=
    .append (.append .nil rfl rfl ⟨_, rfl, rfl⟩ : Appended sampleKey [sampleRow₁]) rfl rfl
      ⟨_, rfl, rfl⟩
  others := []
  others_separate := by simp

/-- A key that accepts exactly the signatures it made over the messages of a history is ideal
for it, when it signs them differently. -/
theorem idealSignatures_of_messages {key : AuditKey} {H : SigningHistory key}
    {messages : List Bytes} (hsigned : ∀ m, H.Signed m ↔ m ∈ messages)
    (hdistinct : ∀ m ∈ messages, ∀ m' ∈ messages, key.sign m = key.sign m' → m = m') :
    IdealSignatures (fun m sig => decide (m ∈ messages ∧ sig = key.sign m)) H where
  sound m sig h := (hsigned m).mpr (of_decide_eq_true h).1
  complete m h := decide_eq_true ⟨(hsigned m).mp h, rfl⟩
  binding m m' sig h h' := by
    obtain ⟨hm, hsig⟩ := of_decide_eq_true h
    obtain ⟨hm', hsig'⟩ := of_decide_eq_true h'
    exact hdistinct m hm m' hm' (hsig.symm.trans hsig')

/-- The messages of the two sample rows. -/
theorem exists_messageOf_sampleRows_iff {m : Bytes} :
    (∃ row ∈ [sampleRow₁, sampleRow₂], MessageOf row m) ↔ m ∈ sampleMessages := by
  constructor
  · rintro ⟨row, hrow, i, hi, rfl⟩
    rcases List.mem_pair.mp hrow with rfl | rfl
    · obtain rfl : ChainIdentity.v4 "admin" "" "uid:1000" = i := Except.ok.inj hi
      exact List.mem_cons_self
    · obtain rfl : ChainIdentity.v4 "observer" "" "uid:1001" = i := Except.ok.inj hi
      exact List.mem_cons_of_mem _ List.mem_cons_self
  · intro hm
    rcases List.mem_pair.mp hm with rfl | rfl
    · exact ⟨sampleRow₁, by simp, _, rfl, rfl⟩
    · exact ⟨sampleRow₂, by simp, _, rfl, rfl⟩

theorem sampleHistory_ideal : IdealSignatures sampleKey.verifyingKey sampleHistory := by
  refine idealSignatures_of_messages (fun m => ?_) (by decide +kernel)
  rw [← exists_messageOf_sampleRows_iff]
  simp [SigningHistory.Signed, sampleHistory]

/-! ### Tamper evidence -/

section Evidence

variable {key : AuditKey} {vk : VerifyingKey} {H : SigningHistory key}

/-- The tip of an appended chain is empty or hexadecimal. -/
theorem us_notMem_tipHash {rows : List ChainRow} (h : Appended key rows) :
    0x1F ∉ utf8 (tipHash rows) := by
  rcases List.eq_nil_or_concat rows with rfl | ⟨pre, last, rfl⟩
  · simp [tipHash]
  · have hsigned := (h.split (show pre.concat last = pre ++ last :: [] by simp)).2.2.2
    obtain ⟨m, -, hdecode⟩ := hsigned.decode_chainHash
    simpa [tipHash] using us_notMem_of_decode hdecode

/-- Appended rows point at empty or hexadecimal hashes. -/
theorem us_notMem_prevChainHash {a : ChainRow} (ha : a ∈ H.rows) :
    0x1F ∉ utf8 a.prevChainHash := by
  obtain ⟨pre, post, hsplit⟩ := List.append_of_mem ha
  obtain ⟨hpre, -, hprev, -⟩ := H.appended.split hsplit
  exact hprev ▸ us_notMem_tipHash hpre

/-- Of the signed messages only those of appended rows can be a transaction row's. -/
theorem exists_row_of_signed_chainMessage {c : ChainContent} {p : String}
    (h : H.Signed (chainMessage c p)) : ∃ a ∈ H.rows, MessageOf a (chainMessage c p) := by
  rcases h with hrow | hother
  · exact hrow
  · rcases H.others_separate _ hother with ⟨e, q, h⟩ | ⟨seq, tip, at_, h⟩ | ⟨tx, hash, h⟩
    · exact absurd h (chainMessage_ne_eventMessage c p e q)
    · exact absurd h (chainMessage_ne_checkpointMessage c p seq tip at_)
    · exact absurd h (chainMessage_ne_approvalMessage c p tx hash)

/-- A verified row shares its message with an appended row: the fields of the row are an
initial segment of the fields signed there, and its previous hash carries the others. -/
theorem exists_split_of_verified (sound : Unforgeable vk H) {expectKeyId : Option String}
    {row : ChainRow} (h : checkRow vk expectKeyId row = .verified) :
    ∃ i, row.identity = .ok i ∧ ∃ a ∈ H.rows, ∃ j, a.identity = .ok j ∧
      ∃ hs, (a.contentWith j).fields = (row.contentWith i).fields ++ hs ∧
        utf8 row.prevChainHash = encodeFields hs ++ utf8 a.prevChainHash := by
  obtain ⟨i, sig, hi, -, hsig⟩ := of_checkRow_verified h
  obtain ⟨a, ha, j, hj, hm⟩ := exists_row_of_signed_chainMessage (sound _ _ hsig)
  exact ⟨i, hi, a, ha, j, hj, chainMessage_split (us_notMem_prevChainHash ha) hm⟩

/-- **What a verified row proves.** A row counted as verified carries the version and the
signed fields of an appended row exactly when its own previous hash is free of the field
terminator; a previous hash with terminators stands in for fields the row has shed. -/
theorem signed_iff_unframed_of_mem_countedRows (sound : Unforgeable vk H)
    (expectKeyId : Option String) (rows : List ChainRow) {row : ChainRow}
    (hrow : row ∈ countedRows (checkRow vk expectKeyId) rows) :
    (∃ a ∈ H.rows, SameSigned row a) ↔ 0x1F ∉ utf8 row.prevChainHash := by
  obtain ⟨-, hverified⟩ := mem_and_verified_of_mem_countedFrom hrow
  obtain ⟨i, hi, a, ha, j, hj, hs, hfields, hprev⟩ := exists_split_of_verified sound hverified
  constructor
  · rintro ⟨b, hb, hsame⟩
    -- the sequence number is signed in every generation, so `b` is the row `a` itself
    have hseq : (row.contentWith i).seq = (a.contentWith j).seq :=
      ChainContent.seq_eq_of_fields_eq_append hfields
    obtain rfl := H.appended.eq_of_seq_eq ha hb (hseq.symm.trans hsame.seq_eq)
    obtain ⟨i', j', hi', hj', hnorm⟩ := hsame.fields
    obtain rfl := Except.ok.inj (hi.symm.trans hi')
    obtain rfl := Except.ok.inj (hj.symm.trans hj')
    rw [← ChainContent.fields_eq_iff_normalized_eq] at hnorm
    have hnil : hs = [] := by simpa [hnorm] using hfields
    rw [hprev, hnil]
    exact us_notMem_prevChainHash ha
  · intro hus
    cases hs with
    | nil =>
      refine ⟨a, ha, sameSigned_of_normalized hi hj ?_⟩
      exact ChainContent.normalized_eq_of_fields_eq (by simpa using hfields.symm)
    | cons f hs =>
      refine absurd ?_ hus
      rw [hprev]
      simp [encodeFields, stuffing.term_mem_field, show (0x1F : UInt8) = stuffing.term from rfl]

/-- The second sample row, counted in its honest chain, is one the store signed. -/
theorem sampleRow₂_signed :
    sampleRow₂ ∈
        countedRows (checkRow sampleKey.verifyingKey (some "v1")) [sampleRow₁, sampleRow₂] ∧
      ∃ a ∈ sampleHistory.rows, SameSigned sampleRow₂ a := by
  have hcounted : sampleRow₂ ∈
      countedRows (checkRow sampleKey.verifyingKey (some "v1")) [sampleRow₁, sampleRow₂] := by
    decide +kernel
  have hus : 0x1F ∉ utf8 sampleRow₂.prevChainHash := by decide +kernel
  exact ⟨hcounted, (signed_iff_unframed_of_mem_countedRows sampleHistory_ideal.sound (some "v1")
    [sampleRow₁, sampleRow₂] hcounted).mpr hus⟩

/-- The fields version 4 appended to the first sample row, as they stand in its message. -/
def shedFields : String :=
  "chain_version\x1e4\x1fcaller_role\x1eadmin\x1fevent_tip\x1e\x1f" ++
    "caller_principal\x1euid:1000\x1f"

/-- The first sample row with its version column raised beyond what is known, which is
conceded, and its hash column replaced by the fields to shed. -/
def concedingRow : ChainRow := { sampleRow₁ with chainVersion := 9, chainHash := shedFields }

/-- The first sample row retyped as version 1, pointing at the conceding row. -/
def retypedRow : ChainRow :=
  { sampleRow₁ with
    chainVersion := 1
    callerRole := none
    eventTip := none
    callerPrincipal := none
    prevChainHash := shedFields }

/-- **A downgrade that hides.** Under ideal signatures a row signed at version 4 is counted as
verified after being retyped as a version 1 row without its role, tip and principal. -/
theorem countedRows_retyped_row :
    ¬ ∀ (key : AuditKey) (vk : VerifyingKey) (H : SigningHistory key), IdealSignatures vk H →
      ∀ (expectKeyId : Option String) (rows : List ChainRow),
        ∀ row ∈ countedRows (checkRow vk expectKeyId) rows, ∃ a ∈ H.rows, SameSigned row a := by
  intro hall
  have hcounted : retypedRow ∈
      countedRows (checkRow sampleKey.verifyingKey (some "v1")) [concedingRow, retypedRow] := by
    decide +kernel
  obtain ⟨a, ha, hsame⟩ := hall sampleKey sampleKey.verifyingKey sampleHistory sampleHistory_ideal
    (some "v1") [concedingRow, retypedRow] retypedRow hcounted
  have hversions : ∀ a ∈ sampleHistory.rows, retypedRow.chainVersion ≠ a.chainVersion := by decide
  exact hversions a ha hsame.version

private theorem seq_eq_of_messageOf {a b : ChainRow} {m : Bytes} (ha : MessageOf a m)
    (hb : MessageOf b m) (haH : a ∈ H.rows) (hbH : b ∈ H.rows) : a.seq = b.seq := by
  obtain ⟨i, -, rfl⟩ := ha
  obtain ⟨j, -, hm⟩ := hb
  have hnorm := (chainMessage_inj (us_notMem_prevChainHash haH) (us_notMem_prevChainHash hbH) hm).1
  exact congrArg ChainContent.seq hnorm

/-- The rows of a history, as a log under ideal signatures. -/
def SigningHistory.log (H : SigningHistory key) (ideal : IdealSignatures vk H) :
    SignedLog ChainRow vk where
  rows := H.rows
  MessageOf := MessageOf
  linked := (appended_iff_chained.mp H.appended).linksFrom
  signed a ha := by
    obtain ⟨pre, post, hsplit⟩ := List.append_of_mem ha
    obtain ⟨m, hm, hdecode⟩ := (H.appended.split hsplit).2.2.2.decode_chainHash
    have hvk := ideal.complete m (.inl ⟨a, ha, hm⟩)
    exact ⟨m, hm, signatureOk_iff.mpr ⟨key.sign m, hdecode, hvk⟩⟩
  place m pre a post pre' a' post' hpre hpre' ha ha' := by
    have hmem : a ∈ H.rows := by simp [hpre]
    have hmem' : a' ∈ H.rows := by simp [hpre']
    have hseq := seq_eq_of_messageOf ha ha' hmem hmem'
    exact ((appended_iff_chained.mp H.appended).eq_of_seq_eq hpre hpre' hseq).1
  prev r a m hr ha hrm ham := by
    obtain ⟨i, -, rfl⟩ := hrm
    obtain ⟨j, -, hm⟩ := ham
    exact (chainMessage_inj hr ha hm).2
  sound r m sig hr hvk := by
    obtain ⟨i, -, rfl⟩ := hr
    exact exists_row_of_signed_chainMessage (ideal.sound _ _ hvk)
  binding := ideal.binding

/-- A row that matches an appended row has its version and its signed fields. -/
theorem sameSigned_of_matches {ideal : IdealSignatures vk H} {r a : ChainRow}
    (h : (H.log ideal).Matches r a) : SameSigned r a := by
  obtain ⟨m, ⟨i, hi, rfl⟩, ⟨j, hj, hm⟩, -⟩ := h.message
  have hr : 0x1F ∉ utf8 r.prevChainHash := by
    have hprev : r.prevChainHash = a.prevChainHash := h.prev
    exact hprev ▸ h.unframed
  exact sameSigned_of_normalized hi hj (chainMessage_inj hr h.unframed hm).1

theorem exists_message_of_checkRow_verified {expectKeyId : Option String} {row : ChainRow}
    (h : checkRow vk expectKeyId row = .verified) :
    ∃ m, MessageOf row m ∧ signatureOk vk m row.chainHash = true := by
  obtain ⟨i, sig, hi, hdecode, hvk⟩ := of_checkRow_verified h
  exact ⟨_, ⟨i, hi, rfl⟩, signatureOk_iff.mpr ⟨sig, hdecode, hvk⟩⟩

theorem exists_sameSigned_of_intact (ideal : IdealSignatures vk H) {expectKeyId : Option String}
    {rows : List ChainRow} {n : ℕ} (h : verifyRows vk expectKeyId rows = .intact n) :
    ∃ pre, pre <+: H.rows ∧
      List.Forall₂ (fun r a => SameSigned r a ∧ r.prevChainHash = a.prevChainHash) rows pre := by
  obtain ⟨pre, hpre, hrows⟩ := SignedLog.exists_matches_of_intact (L := H.log ideal)
    (fun _ => exists_message_of_checkRow_verified) h
  exact ⟨pre, hpre, hrows.imp fun _ _ hra => ⟨sameSigned_of_matches hra, hra.prev⟩⟩

/-- **Tamper evidence.** Rows that verify as an intact chain are, in version and signed fields
and in order, a prefix of the rows the store appended. -/
theorem verifyRows_intact_isPrefix (ideal : IdealSignatures vk H) (expectKeyId : Option String)
    (rows : List ChainRow) {n : ℕ} (h : verifyRows vk expectKeyId rows = .intact n) :
    ∃ pre, pre <+: H.rows ∧
      List.Forall₂ (fun r a => SameSigned r a ∧ r.prevChainHash = a.prevChainHash) rows pre :=
  exists_sameSigned_of_intact ideal h

/-- The sample chain verifies as intact, and both its rows are the appended ones. -/
theorem sampleRows_intact_isPrefix :
    verifyRows sampleKey.verifyingKey (some "v1") [sampleRow₁, sampleRow₂] = .intact 2 ∧
      ∃ pre, pre <+: sampleHistory.rows ∧
        List.Forall₂ (fun r a => SameSigned r a ∧ r.prevChainHash = a.prevChainHash)
          [sampleRow₁, sampleRow₂] pre := by
  have hintact : verifyRows sampleKey.verifyingKey (some "v1") [sampleRow₁, sampleRow₂] =
      .intact 2 := by
    decide +kernel
  exact ⟨hintact, verifyRows_intact_isPrefix sampleHistory_ideal (some "v1")
    [sampleRow₁, sampleRow₂] hintact⟩

end Evidence

end Sysknife.Audit
