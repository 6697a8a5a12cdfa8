import Mathlib.Data.List.Sort
import Sysknife.Audit.Chain

/-!
# Checkpoints and their anchor

A chain whose newest rows were deleted still verifies. `anchorOnce` signs the number and the
hash of the newest row into a checkpoint and appends it to a sink outside the host, reading it
back; `verifyAgainstAnchor` looks for every checkpoint of the sink among the rows.

The sink is a table this code only inserts into and reads. What the database answers to one run
is a `SinkAnswers`: an insert may fail, and may have been stored all the same, and a read may
fail; a read that succeeds returns every checkpoint, in an order of their numbers.

`checkpoint_anchoring` collects what follows: an anchored row cannot go missing unnoticed, a
chain that does not verify is not anchored, and rows that verify and agree with the checkpoints
are complete up to the last of them.
-/

namespace Sysknife.Audit

/-! ### Checkpoints -/

/-- A signed commitment to the tip of the chain. -/
structure Checkpoint where
  seq : ℕ
  chainTip : String
  createdAt : String
  signature : String
  deriving DecidableEq, Repr

/-- Sign a checkpoint. -/
def AuditKey.signCheckpoint (key : AuditKey) (seq : ℕ) (chainTip createdAt : String) :
    Checkpoint :=
  ⟨seq, chainTip, createdAt, Hex.encode (key.sign (checkpointMessage seq chainTip createdAt)).1⟩

/-- Result of comparing checkpoints with a chain. -/
inductive CheckpointOutcome
  | consistent (checkpointsChecked : ℕ)
  | badSignature (seq : ℕ)
  | truncated (checkpointSeq currentMaxSeq : ℕ)
  | tipMismatch (seq : ℕ) (anchored actual : String)
  | cannotVerify (reason : String)
  deriving DecidableEq, Repr

/-- The loop of `slice::binary_search_by_key`: `size` elements from `base` on are left, the
lower half is given up when its successor is not too large. There is no early exit. -/
def searchLoop (rows : List ChainRow) (seq : ℕ) : ℕ → ℕ → ℕ → ℕ
  | 0, base, _ => base
  | rounds + 1, base, size =>
    if size ≤ 1 then base
    else
      let half := size / 2
      let mid := base + half
      let base :=
        match rows[mid]? with
        | some row => if seq < row.seq then base else mid
        | none => base
      searchLoop rows seq rounds base (size - half)

/-- Binary search for a row by its number; the number of rounds is bounded by the number of
rows. -/
def binarySearchBySeq (rows : List ChainRow) (seq : ℕ) : Option ChainRow :=
  (rows[searchLoop rows seq rows.length 0 rows.length]?).filter (·.seq = seq)

/-- The loop of `verifyCheckpoints`. -/
def checkpointsFrom (vk : VerifyingKey) (rows : List ChainRow) (checked : ℕ) :
    List Checkpoint → CheckpointOutcome
  | [] => .consistent checked
  | cp :: cps =>
    let msg := checkpointMessage cp.seq cp.chainTip cp.createdAt
    if !signatureOk vk msg cp.signature then .badSignature cp.seq
    else
      match binarySearchBySeq rows cp.seq with
      | some row =>
        if row.chainHash = cp.chainTip then checkpointsFrom vk rows (checked + 1) cps
        else .tipMismatch cp.seq cp.chainTip row.chainHash
      | none => .truncated cp.seq ((rows.getLast?.map ChainRow.seq).getD 0)

/-- Compare checkpoints with a chain, under a public key in hexadecimal, which `parse` reads. -/
def verifyCheckpoints (parse : String → Option VerifyingKey) (verifyingKeyHex : String)
    (rows : List ChainRow) (checkpoints : List Checkpoint) : CheckpointOutcome :=
  match parse verifyingKeyHex with
  | some vk => checkpointsFrom vk rows 0 checkpoints
  | none =>
    .cannotVerify ("invalid public key hex (" ++ toString (utf8 verifyingKeyHex).length ++
      " chars)")

/-! ### The sink -/

/-- Errors of the sink. -/
inductive CheckpointSinkError
  | connect (message : String)
  | query (message : String)
  deriving DecidableEq, Repr

/-- What the sink's database answers to one run. -/
structure SinkAnswers where
  /-- The error the insert reports, if it fails. -/
  insertError : Option String
  /-- A failing insert may have been stored all the same. -/
  insertStored : Bool
  /-- The error the read reports, if it fails. -/
  loadError : Option String
  /-- `ORDER BY seq ASC` -/
  order : List Checkpoint → List Checkpoint
  order_perm : ∀ cps, (order cps).Perm cps
  order_sorted : ∀ cps, (order cps).Pairwise fun a b => a.seq ≤ b.seq

namespace SinkAnswers

variable (db : SinkAnswers)

/-- Append one checkpoint. -/
def append (checkpoint : Checkpoint) (stored : List Checkpoint) :
    Except CheckpointSinkError Unit × List Checkpoint :=
  if 2 ^ 63 ≤ checkpoint.seq then (.error (.query "checkpoint seq exceeds i64 range"), stored)
  else
    match db.insertError with
    | some e => (.error (.query e), if db.insertStored then stored ++ [checkpoint] else stored)
    | none => (.ok (), stored ++ [checkpoint])

/-- Load every checkpoint. -/
def loadAll (stored : List Checkpoint) : Except CheckpointSinkError (List Checkpoint) :=
  match db.loadError with
  | some e => .error (.query e)
  | none => .ok (db.order stored)

end SinkAnswers

/-! ### Anchoring -/

/-- Result of one anchoring attempt. -/
inductive AnchorOutcome
  | anchored (seq checkpointsChecked : ℕ)
  | chainEmpty
  | chainBroken (outcome : VerifyOutcome)
  | readBackMissing
  | inconsistent (outcome : CheckpointOutcome)
  deriving DecidableEq, Repr

section Anchoring

variable (key : AuditKey) (parse : String → Option VerifyingKey) (verifyingKeyHex : String)

/-- Anchor the tip of a chain that verifies, and compare the chain with everything anchored. -/
def anchorOnce (rows : List ChainRow) (createdAt : String) (db : SinkAnswers)
    (stored : List Checkpoint) :
    Except CheckpointSinkError AnchorOutcome × List Checkpoint :=
  match rows.getLast? with
  | none => (.ok .chainEmpty, stored)
  | some tip =>
    match verifyChain key rows with
    | .intact _ =>
      let checkpoint := key.signCheckpoint tip.seq tip.chainHash createdAt
      match db.append checkpoint stored with
      | (.error e, stored) => (.error e, stored)
      | (.ok (), stored) =>
        match db.loadAll stored with
        | .error e => (.error e, stored)
        | .ok anchored =>
          if checkpoint ∉ anchored then (.ok .readBackMissing, stored)
          else
            match verifyCheckpoints parse verifyingKeyHex rows anchored with
            | .consistent checkpointsChecked =>
              (.ok (.anchored checkpoint.seq checkpointsChecked), stored)
            | other => (.ok (.inconsistent other), stored)
    | broken => (.ok (.chainBroken broken), stored)

/-- Compare a chain with everything anchored, without writing. -/
def verifyAgainstAnchor (rows : List ChainRow) (db : SinkAnswers) (stored : List Checkpoint) :
    Except CheckpointSinkError CheckpointOutcome := do
  let anchored ← db.loadAll stored
  if anchored.isEmpty then
    .ok (.cannotVerify ("a checkpoint anchor is configured but holds no checkpoints, so a " ++
      "deleted tail would still go unnoticed; run \x60sysknife audit checkpoint\x60 " ++
      "(periodically — the interval is the window an attacker can rewrite)"))
  else .ok (verifyCheckpoints parse verifyingKeyHex rows anchored)

/-- One call of `anchorOnce`: the rows the host presents, and what the sink answers. -/
structure AnchorRun where
  rows : List ChainRow
  createdAt : String
  db : SinkAnswers

/-- The sink after a sequence of runs. -/
def anchorRuns (runs : List AnchorRun) (stored : List Checkpoint) : List Checkpoint :=
  runs.foldl (fun stored r =>
    (anchorOnce key parse verifyingKeyHex r.rows r.createdAt r.db stored).2) stored

end Anchoring

/-! ### What agreement proves -/

/-- A found row is a row of that number, whatever the order of the rows. -/
theorem of_binarySearchBySeq {rows : List ChainRow} {seq : ℕ} {row : ChainRow}
    (h : binarySearchBySeq rows seq = some row) : row ∈ rows ∧ row.seq = seq := by
  obtain ⟨hget, hseq⟩ := Option.filter_eq_some_iff.mp h
  exact ⟨List.mem_of_getElem? hget, of_decide_eq_true hseq⟩

/-- Checkpoints that agree with the rows are all found among them. -/
theorem exists_row_of_checkpointsFrom {vk : VerifyingKey} {rows : List ChainRow}
    {cps : List Checkpoint} {k n : ℕ} (h : checkpointsFrom vk rows k cps = .consistent n) :
    ∀ cp ∈ cps, ∃ row ∈ rows, row.seq = cp.seq ∧ row.chainHash = cp.chainTip := by
  induction cps generalizing k with
  | nil => simp
  | cons cp cps ih =>
    simp only [checkpointsFrom] at h
    split_ifs at h
    split at h
    · rename_i row hrow
      obtain ⟨hmem, hseq⟩ := of_binarySearchBySeq hrow
      split_ifs at h with htip
      rw [List.forall_mem_cons]
      exact ⟨⟨row, hmem, hseq, htip⟩, ih h⟩
    · cases h

theorem exists_row_of_verifyCheckpoints {parse : String → Option VerifyingKey} {hex : String}
    {rows : List ChainRow} {cps : List Checkpoint} {n : ℕ}
    (h : verifyCheckpoints parse hex rows cps = .consistent n) :
    ∀ cp ∈ cps, ∃ row ∈ rows, row.seq = cp.seq ∧ row.chainHash = cp.chainTip := by
  unfold verifyCheckpoints at h
  split at h
  · exact exists_row_of_checkpointsFrom h
  · cases h

/-- Agreement with the anchor is agreement with everything stored there. -/
theorem exists_row_of_verifyAgainstAnchor {parse : String → Option VerifyingKey} {hex : String}
    {rows : List ChainRow} {db : SinkAnswers} {stored : List Checkpoint} {n : ℕ}
    (h : verifyAgainstAnchor parse hex rows db stored = .ok (.consistent n)) :
    ∀ cp ∈ stored, ∃ row ∈ rows, row.seq = cp.seq ∧ row.chainHash = cp.chainTip := by
  obtain ⟨anchored, hload, h⟩ := exists_of_bind_eq_ok h
  have hanchored : anchored = db.order stored := by
    unfold SinkAnswers.loadAll at hload
    split at hload
    · cases hload
    · exact (Except.ok.inj hload).symm
  split_ifs at h
  · cases Except.ok.inj h
  intro cp hcp
  have hmem : cp ∈ anchored := by rwa [hanchored, (db.order_perm stored).mem_iff]
  exact exists_row_of_verifyCheckpoints (Except.ok.inj h) cp hmem

/-! ### The sink only grows -/

section Sink

variable (key : AuditKey) (parse : String → Option VerifyingKey) (hex : String)

theorem append_stored (db : SinkAnswers) (cp : Checkpoint) (stored : List Checkpoint) :
    (db.append cp stored).2 = stored ∨ (db.append cp stored).2 = stored ++ [cp] := by
  by_cases hrange : 2 ^ 63 ≤ cp.seq
  · exact .inl (by simp only [SinkAnswers.append, if_pos hrange])
  · cases herror : db.insertError with
    | none => exact .inr (by simp only [SinkAnswers.append, if_neg hrange, herror])
    | some e =>
      cases hstored : db.insertStored with
      | true =>
        right
        simp only [SinkAnswers.append, if_neg hrange, herror, hstored, if_true]
      | false =>
        left
        simp only [SinkAnswers.append, if_neg hrange, herror, hstored, Bool.false_eq_true, if_false]

/-- What one run can do to the sink: nothing, or append the checkpoint of a chain that
verifies. -/
theorem anchorOnce_stored (r : AnchorRun) (stored : List Checkpoint) :
    (anchorOnce key parse hex r.rows r.createdAt r.db stored).2 = stored ∨
      ∃ tip n, r.rows.getLast? = some tip ∧ verifyChain key r.rows = .intact n ∧
        (anchorOnce key parse hex r.rows r.createdAt r.db stored).2 =
          stored ++ [key.signCheckpoint tip.seq tip.chainHash r.createdAt] := by
  cases htip : r.rows.getLast? with
  | none =>
    left
    simp only [anchorOnce, htip]
  | some tip =>
    cases hverify : verifyChain key r.rows with
    | broken k seq id expected actual =>
      left
      simp only [anchorOnce, htip, hverify]
    | cannotVerify reason =>
      left
      simp only [anchorOnce, htip, hverify]
    | intact n =>
      -- whatever happens after the insert, the sink holds what the insert left
      have hafter : (anchorOnce key parse hex r.rows r.createdAt r.db stored).2 =
          (r.db.append (key.signCheckpoint tip.seq tip.chainHash r.createdAt) stored).2 := by
        simp only [anchorOnce, htip, hverify]
        repeat' split
        all_goals simp_all
      rw [hafter]
      rcases append_stored r.db (key.signCheckpoint tip.seq tip.chainHash r.createdAt) stored with
        h | h
      · exact .inl h
      · exact .inr ⟨tip, n, rfl, rfl, h⟩

theorem isPrefix_anchorOnce (r : AnchorRun) (stored : List Checkpoint) :
    stored <+: (anchorOnce key parse hex r.rows r.createdAt r.db stored).2 := by
  rcases anchorOnce_stored key parse hex r stored with h | ⟨tip, n, -, -, h⟩
  · exact ⟨[], by rw [h, List.append_nil]⟩
  · exact ⟨[key.signCheckpoint tip.seq tip.chainHash r.createdAt], h.symm⟩

/-- No run takes a checkpoint away. -/
theorem isPrefix_anchorRuns (runs : List AnchorRun) (stored : List Checkpoint) :
    stored <+: anchorRuns key parse hex runs stored := by
  induction runs generalizing stored with
  | nil => exact List.prefix_rfl
  | cons r runs ih => exact (isPrefix_anchorOnce key parse hex r stored).trans (ih _)

end Sink

/-! ### The guarantees of anchoring -/

/-- Rows that verify and agree with the checkpoints are complete up to every checkpoint. -/
theorem exists_row_of_seq_le {key : AuditKey} {vk : VerifyingKey} {H : SigningHistory key}
    (ideal : IdealSignatures vk H) {expectKeyId : Option String}
    {parse : String → Option VerifyingKey} {hex : String} {rows : List ChainRow}
    {cps : List Checkpoint} {n k : ℕ} (hrows : verifyRows vk expectKeyId rows = .intact n)
    (hcps : verifyCheckpoints parse hex rows cps = .consistent k) {cp : Checkpoint}
    (hcp : cp ∈ cps) {a : ChainRow} (ha : a ∈ H.rows) (hle : a.seq ≤ cp.seq) :
    ∃ r ∈ rows, SameSigned r a ∧ r.prevChainHash = a.prevChainHash := by
  obtain ⟨pre, ⟨post, hpost⟩, hmatch⟩ := exists_sameSigned_of_intact ideal hrows
  -- the row of the checkpoint has a place among the rows, so there are as many rows as it counts
  obtain ⟨row, hrow, hseq, -⟩ := exists_row_of_verifyCheckpoints hcps cp hcp
  obtain ⟨rs, rs', rfl⟩ := List.append_of_mem hrow
  obtain ⟨as, bs, rfl, -, hbs⟩ := exists_append_of_forall₂ hmatch
  obtain ⟨b, bs, ⟨hsame, -⟩, -, rfl⟩ := List.forall₂_cons_left_iff.mp hbs
  have hb : H.rows = as ++ b :: (bs ++ post) := by simpa using hpost.symm
  have hbseq := (H.appended.split hb).2.1
  have hcount : cp.seq = as.length + 1 := by rw [← hseq, hsame.seq_eq, hbseq]
  -- and the appended row with the smaller number stands in the same beginning
  obtain ⟨xs, ys, hsplit⟩ := List.append_of_mem ha
  have haseq := (H.appended.split hsplit).2.1
  have hmem : a ∈ as ++ b :: bs := by
    have hget : (as ++ b :: bs)[xs.length]? = some a := by
      have hlt : xs.length < (as ++ b :: bs).length := by
        simp only [List.length_append, List.length_cons]
        omega
      have hlonger : (as ++ b :: bs ++ post)[xs.length]? = (as ++ b :: bs)[xs.length]? :=
        List.getElem?_append_left hlt
      rw [← hlonger, hpost, hsplit]
      simp
    exact List.mem_of_getElem? hget
  obtain ⟨cs, ds, hcs⟩ := List.append_of_mem hmem
  rw [hcs] at hmatch
  obtain ⟨us, vs, hus, -, hvs⟩ := exists_append_of_forall₂ hmatch.flip
  obtain ⟨r, vs, hr, -, rfl⟩ := List.forall₂_cons_left_iff.mp hvs
  exact ⟨r, by simp [hus], hr⟩

/-- **Checkpoint anchoring.**
1. Once a run has stored a checkpoint, and whatever further runs follow, rows without that
   number and hash never agree with the anchor.
2. A run on a chain that does not verify as intact stores nothing.
3. Under ideal signatures, rows that verify as intact and agree with checkpoints contain every
   row the store had appended up to the largest number among them. -/
theorem checkpoint_anchoring (key : AuditKey) (parse : String → Option VerifyingKey)
    (hex : String) :
    (∀ (before after : List AnchorRun) (r : AnchorRun) (stored : List Checkpoint)
        (cp : Checkpoint),
      (anchorOnce key parse hex r.rows r.createdAt r.db
          (anchorRuns key parse hex before stored)).2 =
        anchorRuns key parse hex before stored ++ [cp] →
      ∀ (rows : List ChainRow), (∀ row ∈ rows, ¬ (row.seq = cp.seq ∧ row.chainHash = cp.chainTip)) →
      ∀ (hex' : String) (db : SinkAnswers) (n : ℕ),
        verifyAgainstAnchor parse hex' rows db
          (anchorRuns key parse hex (before ++ r :: after) stored) ≠ .ok (.consistent n)) ∧
    (∀ (r : AnchorRun) (stored : List Checkpoint), (∀ n, verifyChain key r.rows ≠ .intact n) →
      (anchorOnce key parse hex r.rows r.createdAt r.db stored).2 = stored) ∧
    (∀ (vk : VerifyingKey) (H : SigningHistory key), IdealSignatures vk H →
      ∀ (expectKeyId : Option String) (hex' : String) (rows : List ChainRow)
        (cps : List Checkpoint) (n k : ℕ), verifyRows vk expectKeyId rows = .intact n →
        verifyCheckpoints parse hex' rows cps = .consistent k →
        ∀ a ∈ H.rows, (∃ cp ∈ cps, a.seq ≤ cp.seq) →
          ∃ r ∈ rows, SameSigned r a ∧ r.prevChainHash = a.prevChainHash) := by
  refine ⟨?_, ?_, ?_⟩
  · intro before after r stored cp hwrote rows hmissing hex' db n hconsistent
    have hruns : anchorRuns key parse hex (before ++ r :: after) stored =
        anchorRuns key parse hex after (anchorRuns key parse hex before stored ++ [cp]) := by
      rw [← hwrote]
      simp [anchorRuns]
    rw [hruns] at hconsistent
    have hmem : cp ∈
        anchorRuns key parse hex after (anchorRuns key parse hex before stored ++ [cp]) :=
      (isPrefix_anchorRuns key parse hex after _).subset (by simp)
    obtain ⟨row, hrow, hseq, htip⟩ := exists_row_of_verifyAgainstAnchor hconsistent cp hmem
    exact hmissing row hrow ⟨hseq, htip⟩
  · intro r stored hbroken
    rcases anchorOnce_stored key parse hex r stored with h | ⟨tip, n, -, hintact, -⟩
    · exact h
    · exact absurd hintact (hbroken n)
  · intro vk H ideal expectKeyId hex' rows cps n k hrows hcps a ha ⟨cp, hcp, hle⟩
    exact exists_row_of_seq_le ideal hrows hcps hcp ha hle

/-! ### A sample anchor -/

/-- A sink whose statements succeed. -/
def sampleSink : SinkAnswers where
  insertError := none
  insertStored := false
  loadError := none
  order := List.insertionSort fun a b => a.seq ≤ b.seq
  order_perm := List.perm_insertionSort _
  order_sorted cps := by
    have : Std.Total fun a b : Checkpoint => a.seq ≤ b.seq := ⟨fun a b => Nat.le_total _ _⟩
    have : IsTrans Checkpoint fun a b => a.seq ≤ b.seq := ⟨fun _ _ _ => Nat.le_trans⟩
    exact List.pairwise_insertionSort _ cps

/-- The messages of the sample rows and of the checkpoint of the second. -/
def anchoredMessages : List Bytes :=
  sampleMessages ++ [checkpointMessage 2 sampleRow₂.chainHash "2026-01-01T00:15:00Z"]

/-- A key that signed the sample rows and the checkpoint. -/
def anchoredKey : AuditKey where
  keyId := "v1"
  sign := checksum
  verifyingKey m sig := decide (m ∈ anchoredMessages ∧ sig = checksum m)

/-- The history of the sample rows and the checkpoint. -/
def anchoredHistory : SigningHistory anchoredKey where
  rows := [sampleRow₁, sampleRow₂]
  appended :=
    .append (.append .nil rfl rfl ⟨_, rfl, rfl⟩ : Appended anchoredKey [sampleRow₁]) rfl rfl
      ⟨_, rfl, rfl⟩
  others := [checkpointMessage 2 sampleRow₂.chainHash "2026-01-01T00:15:00Z"]
  others_separate := by
    intro m hm
    exact .inr (.inl ⟨_, _, _, List.mem_singleton.mp hm⟩)

theorem anchoredHistory_ideal : IdealSignatures anchoredKey.verifyingKey anchoredHistory := by
  refine idealSignatures_of_messages (fun m => ?_) (by decide +kernel)
  rw [anchoredMessages, List.mem_append, ← exists_messageOf_sampleRows_iff]
  rfl

/-- The one public key of the sample, under one name. -/
def sampleParse (verifyingKeyHex : String) : Option VerifyingKey :=
  if verifyingKeyHex = "ab" then some anchoredKey.verifyingKey else none

/-- The run that anchors the two sample rows. -/
def sampleRun : AnchorRun := ⟨[sampleRow₁, sampleRow₂], "2026-01-01T00:15:00Z", sampleSink⟩

/-- After the two sample rows were anchored, the first alone is refused, also when it was
anchored in between; the second alone is not anchored; and both agree with the anchor. -/
theorem sampleRows_anchored :
    (∀ n, verifyAgainstAnchor sampleParse "ab" [sampleRow₁] sampleSink
      (anchorRuns anchoredKey sampleParse "ab"
        [sampleRun, { sampleRun with rows := [sampleRow₁] }] []) ≠ .ok (.consistent n)) ∧
    (anchorOnce anchoredKey sampleParse "ab" [sampleRow₂] "2026-01-01T00:30:00Z" sampleSink
      []).2 = [] ∧
    ∃ r ∈ [sampleRow₁, sampleRow₂], SameSigned r sampleRow₁ ∧ r.prevChainHash = "" := by
  obtain ⟨hanchored, hrefused, hcomplete⟩ := checkpoint_anchoring anchoredKey sampleParse "ab"
  let cp := anchoredKey.signCheckpoint 2 sampleRow₂.chainHash "2026-01-01T00:15:00Z"
  refine ⟨fun n => ?_, ?_, ?_⟩
  · have hwrote : (anchorOnce anchoredKey sampleParse "ab" sampleRun.rows sampleRun.createdAt
        sampleRun.db []).2 = [cp] := by
      decide +kernel
    have hmissing : ∀ row ∈ [sampleRow₁], ¬ (row.seq = cp.seq ∧ row.chainHash = cp.chainTip) := by
      decide +kernel
    exact hanchored [] [{ sampleRun with rows := [sampleRow₁] }] sampleRun [] cp hwrote
      [sampleRow₁] hmissing "ab" sampleSink n
  · refine hrefused ⟨[sampleRow₂], "2026-01-01T00:30:00Z", sampleSink⟩ [] fun n => ?_
    have hbroken : verifyChain anchoredKey [sampleRow₂] = .broken 0 2 "tx-2" "prev_chain_hash="
        ("prev_chain_hash=" ++ sampleRow₂.prevChainHash) := by
      decide +kernel
    simp [hbroken]
  · have hrows : verifyRows anchoredKey.verifyingKey (some "v1") [sampleRow₁, sampleRow₂] =
        .intact 2 := by
      decide +kernel
    have hcps : verifyCheckpoints sampleParse "ab" [sampleRow₁, sampleRow₂] [cp] =
        .consistent 1 := by
      decide +kernel
    exact hcomplete _ anchoredHistory anchoredHistory_ideal (some "v1") "ab"
      [sampleRow₁, sampleRow₂] [cp] 2 1 hrows hcps sampleRow₁ List.mem_cons_self
      ⟨cp, List.mem_singleton.mpr rfl, by decide +kernel⟩

end Sysknife.Audit
