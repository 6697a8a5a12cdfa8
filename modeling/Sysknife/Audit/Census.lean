import Sysknife.Actions.Validate
import Sysknife.Audit.Chain
import Sysknife.Lib.Pattern

/-!
# The attribution census

How many rows of the chain can name the account that acted. A row is judged by the encoding that
signed it: only versions 3 and 4 sign `caller_principal`, so what stands in the column of another
row attests nothing.

* `AttributionCensus.of_eq`: the census counts each row in one bucket.
* `sameSigned_of_chainHashes`: intact chains with the same hashes agree in all that is signed,
  since one signature stands for one message.
* `census_fixed`: so whatever was written to unsigned columns, the same accounts are counted.
-/

namespace Sysknife

/-- What a stored principal claims about who acted. -/
inductive PrincipalClaim
  | account
  | attributionFailed
  | unrecognized
  deriving DecidableEq, Repr

namespace CallerPrincipal

/-- What this principal claims about who acted. -/
def claim : CallerPrincipal → PrincipalClaim
  | .uid _ => .account
  | .vsockToken => .account
  | .unattributed => .attributionFailed

/-- The only principal a scheme and a value can come from. -/
def candidate (scheme value : String) : Option CallerPrincipal :=
  if scheme = (uid 0).scheme then (parseU32 value).map uid
  else if scheme = vsockToken.scheme then some vsockToken
  else if scheme = unattributed.scheme then some unattributed
  else none

/-- The principal that is spelled exactly so, if there is one. -/
def fromSigned (stored : String) : Option CallerPrincipal := do
  let (scheme, value) ← Text.splitOnce ":" stored
  let candidate ← candidate scheme value
  if candidate.asSignedStr = stored then some candidate else none

/-- Read a stored principal back into what it claims. -/
def classify (stored : String) : PrincipalClaim :=
  match fromSigned stored with
  | some principal => principal.claim
  | none => .unrecognized

/-- A principal is cut at its first colon. -/
theorem splitOnce_asSignedStr (p : CallerPrincipal) :
    Text.splitOnce ":" p.asSignedStr = some (p.scheme, p.value) := by
  have htext : p.asSignedStr.toList = p.scheme.toList ++ (":".toList ++ p.value.toList) := by
    simp [asSignedStr]
  refine Text.splitOnce_eq_some.mpr ⟨htext, fun k hk hcolon => ?_⟩
  rw [htext, List.drop_append_of_le_length hk.le, List.drop_eq_getElem_cons hk] at hcolon
  have hmem : ':' ∈ p.scheme.toList := by
    have hhead : ':' = p.scheme.toList[k] := (List.cons_prefix_cons.mp hcolon).1
    exact hhead ▸ List.getElem_mem hk
  cases p <;> simp [scheme] at hmem

/-- What the daemon signs reads back as the principal it stands for, and nothing else does. -/
theorem fromSigned_eq_some {stored : String} {p : CallerPrincipal}
    (hp : ∀ n, p = uid n → n < 2 ^ 32) : fromSigned stored = some p ↔ stored = p.asSignedStr := by
  constructor
  · intro h
    obtain ⟨⟨scheme, value⟩, -, h⟩ := Option.bind_eq_some_iff.mp h
    obtain ⟨c, -, h⟩ := Option.bind_eq_some_iff.mp h
    split_ifs at h with heq
    rw [← Option.some.inj h, heq]
  · rintro rfl
    have hcandidate : candidate p.scheme p.value = some p := by
      cases p with
      | uid n => 
        have hscheme : (uid n).scheme = (uid 0).scheme := rfl
        rw [candidate, if_pos hscheme, value, parseU32_toString (hp n rfl), Option.map_some]
      | vsockToken => rfl
      | unattributed => rfl
    simp [fromSigned, splitOnce_asSignedStr, hcandidate]

end CallerPrincipal

namespace Audit

/-- What the principal column of a row can attest. -/
inductive RowStanding
  | namesAccount
  | attributionFailed
  | notRecorded
  | unattested
  deriving DecidableEq, Repr

/-- The column is believed only under the encodings that sign it. -/
def standing (row : ChainRow) : RowStanding :=
  let stored := row.callerPrincipal.filter (· ≠ "")
  match row.chainVersion with
  | 1 | 2 =>
    match stored with
    | none => .notRecorded
    | some _ => .unattested
  | 3 | 4 =>
    match stored with
    | none => .notRecorded
    | some p =>
      match CallerPrincipal.classify p with
      | .account => .namesAccount
      | .attributionFailed => .attributionFailed
      | .unrecognized => .unattested
  | _ => .unattested

structure AttributionCensus where
  named : ℕ
  attributionFailed : ℕ
  notRecorded : ℕ
  unattested : ℕ
  rows : ℕ
  deriving DecidableEq, Repr

namespace AttributionCensus

/-- Count one more row of a standing. -/
def count (census : AttributionCensus) : RowStanding → AttributionCensus
  | .namesAccount => { census with named := census.named + 1 }
  | .attributionFailed => { census with attributionFailed := census.attributionFailed + 1 }
  | .notRecorded => { census with notRecorded := census.notRecorded + 1 }
  | .unattested => { census with unattested := census.unattested + 1 }

/-- Count the rows. -/
def of (txRows : List ChainRow) : AttributionCensus :=
  txRows.foldl (fun census row => census.count (standing row))
    { named := 0, attributionFailed := 0, notRecorded := 0, unattested := 0,
      rows := txRows.length }

/-- Rows that name no account; `none` where the subtraction would underflow. -/
def unnamed (census : AttributionCensus) : Option ℕ :=
  if census.named ≤ census.rows then some (census.rows - census.named) else none

/-- The rows of a standing. -/
def rowsOf (txRows : List ChainRow) (s : RowStanding) : ℕ :=
  txRows.countP fun row => decide (standing row = s)

/-- Each bucket counts the rows of its standing. -/
theorem of_eq (txRows : List ChainRow) : of txRows =
    { named := rowsOf txRows .namesAccount,
      attributionFailed := rowsOf txRows .attributionFailed,
      notRecorded := rowsOf txRows .notRecorded,
      unattested := rowsOf txRows .unattested,
      rows := txRows.length } := by
  have hfold (rows : List ChainRow) (census : AttributionCensus) :
      rows.foldl (fun census row => census.count (standing row)) census =
        { named := census.named + rowsOf rows .namesAccount,
          attributionFailed := census.attributionFailed + rowsOf rows .attributionFailed,
          notRecorded := census.notRecorded + rowsOf rows .notRecorded,
          unattested := census.unattested + rowsOf rows .unattested,
          rows := census.rows } := by
    induction rows generalizing census with
    | nil => rfl
    | cons row rows ih =>
      rw [List.foldl_cons, ih]
      simp only [rowsOf, List.countP_cons]
      cases standing row <;> simp [count] <;> omega
  rw [of, hfold]
  simp

/-- Every row has one standing. -/
theorem sum_rowsOf (txRows : List ChainRow) :
    rowsOf txRows .namesAccount + rowsOf txRows .attributionFailed + rowsOf txRows .notRecorded +
      rowsOf txRows .unattested = txRows.length := by
  induction txRows with
  | nil => rfl
  | cons row rows ih =>
    simp only [rowsOf, List.countP_cons, List.length_cons] at ih ⊢
    cases standing row <;> simp <;> omega

/-- The buckets make up the rows, so the subtraction does not underflow. -/
theorem unnamed_of (txRows : List ChainRow) : (of txRows).unnamed =
    some ((of txRows).attributionFailed + (of txRows).notRecorded + (of txRows).unattested) := by
  have hsum := sum_rowsOf txRows
  rw [of_eq, unnamed, if_pos (by simp only; omega), Option.some.injEq]
  simp only
  omega

end AttributionCensus

/-! ### What the signature covers -/

/-- The principal an encoding signs. -/
def ChainIdentity.principal : ChainIdentity → Option String
  | .legacyV1 => none
  | .v2 _ _ => none
  | .v3 _ _ callerPrincipal => some callerPrincipal
  | .v4 _ _ callerPrincipal => some callerPrincipal

/-- The standing that what an encoding signs gives its row; an encoding without principal leaves
it to the column whether anything is recorded, and credits nobody. -/
def Vouches (identity : ChainIdentity) (s : RowStanding) : Prop :=
  match identity.principal.map CallerPrincipal.classify with
  | none => s = .notRecorded ∨ s = .unattested
  | some .account => s = .namesAccount
  | some .attributionFailed => s = .attributionFailed
  | some .unrecognized => s = .unattested

theorem requiredColumn_eq_ok {field value : String} {column : Option String} :
    requiredColumn field column = .ok value ↔ column = some value := by
  cases column <;> simp [requiredColumn]

/-- A signed principal is what the column says. -/
theorem callerPrincipal_of_identity {row : ChainRow} {identity : ChainIdentity} {p : String}
    (h : row.identity = .ok identity) (hp : identity.principal = some p) :
    row.callerPrincipal.filter (· ≠ "") = some p := by
  unfold ChainRow.identity at h
  split at h
  · obtain rfl := Except.ok.inj h
    cases hp
  · obtain ⟨_, -, h⟩ := exists_of_bind_eq_ok h
    obtain ⟨_, -, h⟩ := exists_of_bind_eq_ok h
    obtain rfl := Except.ok.inj h
    cases hp
  iterate 2
    · obtain ⟨_, -, h⟩ := exists_of_bind_eq_ok h
      obtain ⟨_, -, h⟩ := exists_of_bind_eq_ok h
      obtain ⟨q, hq, h⟩ := exists_of_bind_eq_ok h
      obtain rfl := Except.ok.inj h
      obtain rfl : q = p := Option.some.inj hp
      exact requiredColumn_eq_ok.mp hq
  · cases h

theorem vouches_standing {row : ChainRow} {identity : ChainIdentity}
    (h : row.identity = .ok identity) : Vouches identity (standing row) := by
  have hversion := ChainRow.version_of_identity h
  have hunsigned (hold : row.chainVersion = 1 ∨ row.chainVersion = 2) :
      standing row = .notRecorded ∨ standing row = .unattested := by
    rw [standing]
    rcases hold with hold | hold <;> rw [hold] <;> cases row.callerPrincipal.filter (· ≠ "") <;>
      simp
  have hsigned {p : String} (hnew : row.chainVersion = 3 ∨ row.chainVersion = 4)
      (hp : identity.principal = some p) : Vouches identity (standing row) := by
    rw [Vouches, hp, standing, callerPrincipal_of_identity h hp]
    rcases hnew with hnew | hnew <;> rw [hnew] <;> simp only [Option.map_some] <;> split <;>
      simp_all
  cases identity with
  | legacyV1 => exact hunsigned (.inl hversion)
  | v2 => exact hunsigned (.inr hversion)
  | v3 => exact hsigned (.inl hversion) rfl
  | v4 => exact hsigned (.inr hversion) rfl

/-- Rows with the same signed fields are counted alike, as far as attribution is concerned. -/
theorem standing_congr {r a : ChainRow} (h : SameSigned r a) {s : RowStanding}
    (hs : s = .namesAccount ∨ s = .attributionFailed) : standing r = s ↔ standing a = s := by
  obtain ⟨i, j, hi, hj, hij⟩ := h.fields
  obtain rfl : i = j := congrArg ChainContent.identity hij
  have hr := vouches_standing hi
  have ha := vouches_standing hj
  rw [Vouches] at hr ha
  cases hclaim : i.principal.map CallerPrincipal.classify with
  | none =>
    rw [hclaim] at hr ha
    have hne : ∀ t, t = .notRecorded ∨ t = .unattested → t ≠ s := by
      rintro t (rfl | rfl) <;> rcases hs with rfl | rfl <;> simp
    exact iff_of_false (hne _ hr) (hne _ ha)
  | some claim =>
    rw [hclaim] at hr ha
    have heq : standing r = standing a := by cases claim <;> exact hr.trans ha.symm
    rw [heq]

/-- **One signature, one message.** Two chains that verify under one key and have the same hashes
have the same signed fields. -/
theorem sameSigned_of_chainHashes {vk : VerifyingKey}
    (binding : ∀ m m' sig, vk m sig = true → vk m' sig = true → m = m')
    {expectKeyId expectKeyId' : Option String} {rows rows' : List ChainRow} {last : String}
    {k u n k' u' n' : ℕ} {first first' : Option String} (hlast : 0x1F ∉ utf8 last)
    (h : walkFrom (checkRow vk expectKeyId) last k first u rows = .intact n)
    (h' : walkFrom (checkRow vk expectKeyId') last k' first' u' rows' = .intact n')
    (hhash : rows.map ChainRow.chainHash = rows'.map ChainRow.chainHash) :
    List.Forall₂ SameSigned rows rows' := by
  induction rows generalizing rows' last k k' with
  | nil =>
    obtain rfl : rows' = [] := List.map_eq_nil_iff.mp hhash.symm
    exact .nil
  | cons row rows ih =>
    obtain ⟨row', rows', rfl, hrow, hrows⟩ := List.map_eq_cons_iff.mp hhash.symm
    obtain ⟨hprev, hcheck, hrest⟩ := of_walkFrom_intact h
    obtain ⟨hprev', hcheck', hrest'⟩ := of_walkFrom_intact h'
    obtain ⟨m, ⟨i, hi, rfl⟩, hok⟩ := exists_message_of_checkRow_verified hcheck
    obtain ⟨m', ⟨j, hj, rfl⟩, hok'⟩ := exists_message_of_checkRow_verified hcheck'
    have hmessage := message_eq_of_signatureOk binding hok (hrow ▸ hok')
    have hunframed : 0x1F ∉ utf8 row.prevChainHash := by
      have hlink : row.prevChainHash = last := hprev
      exact hlink ▸ hlast
    have hunframed' : 0x1F ∉ utf8 row'.prevChainHash := by
      have hlink : row'.prevChainHash = last := hprev'
      exact hlink ▸ hlast
    have hsame := sameSigned_of_normalized hi hj
      (chainMessage_inj hunframed hunframed' hmessage).1
    have hhash' : (ChainLink.chainHash row' : String) = ChainLink.chainHash row := hrow
    rw [hhash'] at hrest'
    exact .cons hsame (ih (us_notMem_of_signatureOk hok) hrest hrest' hrows.symm)

theorem rowsOf_congr {rows rows' : List ChainRow} (h : List.Forall₂ SameSigned rows rows')
    {s : RowStanding} (hs : s = .namesAccount ∨ s = .attributionFailed) :
    AttributionCensus.rowsOf rows s = AttributionCensus.rowsOf rows' s := by
  induction h with
  | nil => rfl
  | cons hrow _ ih =>
    simp only [AttributionCensus.rowsOf, List.countP_cons, decide_eq_true_eq] at ih ⊢
    simp only [ih, standing_congr hrow hs]

/-- **The census is sound.** The buckets partition the rows and what is left of them is never
negative. Where one signature stands for one message, chains that verify and have the same hashes
count the same accounts and the same failed attributions. -/
theorem census_fixed {vk : VerifyingKey}
    (binding : ∀ m m' sig, vk m sig = true → vk m' sig = true → m = m') :
    (∀ rows, let census := AttributionCensus.of rows
      census.rows = rows.length ∧
      census.named + census.attributionFailed + census.notRecorded + census.unattested =
        rows.length ∧
      census.unnamed = some (census.attributionFailed + census.notRecorded + census.unattested)) ∧
    ∀ (expectKeyId expectKeyId' : Option String) (rows rows' : List ChainRow) (n n' : ℕ),
      verifyRows vk expectKeyId rows = .intact n → verifyRows vk expectKeyId' rows' = .intact n' →
      rows.map ChainRow.chainHash = rows'.map ChainRow.chainHash →
      (AttributionCensus.of rows).named = (AttributionCensus.of rows').named ∧
      (AttributionCensus.of rows).attributionFailed =
        (AttributionCensus.of rows').attributionFailed := by
  refine ⟨fun rows => ⟨?_, ?_, AttributionCensus.unnamed_of rows⟩, ?_⟩
  · rw [AttributionCensus.of_eq]
  · rw [AttributionCensus.of_eq]
    exact AttributionCensus.sum_rowsOf rows
  · intro expectKeyId expectKeyId' rows rows' n n' h h' hhash
    have hsame := sameSigned_of_chainHashes binding (by simp) h h' hhash
    rw [AttributionCensus.of_eq, AttributionCensus.of_eq]
    exact ⟨rowsOf_congr hsame (.inl rfl), rowsOf_congr hsame (.inr rfl)⟩

/-- A row of the first encoding, which signs no principal. -/
def legacyRow : ChainRow :=
  { sampleRow₁ with
    chainVersion := 1
    chainHash := Hex.encode (checksum (chainMessage (sampleRow₁.contentWith .legacyV1) "")).1
    callerPrincipal := none }

/-- Writing an account into the column of a legacy row neither breaks the chain nor attributes
the row. -/
theorem census_fixed_legacyRow :
    let vk : VerifyingKey := fun m sig =>
      decide (m = chainMessage (sampleRow₁.contentWith .legacyV1) "" ∧ sig = checksum m)
    let edited : ChainRow := { legacyRow with callerPrincipal := some "uid:0" }
    verifyRows vk none [edited] = .intact 1 ∧
      (AttributionCensus.of [legacyRow]).named = (AttributionCensus.of [edited]).named := by
  intro vk edited
  have hedited : verifyRows vk none [edited] = .intact 1 := by decide +kernel
  have hlegacy : verifyRows vk none [legacyRow] = .intact 1 := by decide +kernel
  have hbinding (m m' : Bytes) (sig : Signature) (h : vk m sig = true) (h' : vk m' sig = true) :
      m = m' :=
    (of_decide_eq_true h).1.trans (of_decide_eq_true h').1.symm
  exact ⟨hedited, ((census_fixed hbinding).2 none none _ _ 1 1 hlegacy hedited rfl).1⟩

end Audit

end Sysknife
