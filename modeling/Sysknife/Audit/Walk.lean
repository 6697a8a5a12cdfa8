import Mathlib.Data.List.Forall2
import Sysknife.Audit.Encoding

/-!
# Walking a signed chain

The transaction rows and the event rows are two chains of one make: each row names the hash of
the row before it, and its own hash is a signature over its columns. `walkChain` follows the
links of either, asking `check` about each row; rows of an unknown encoding or of a foreign key
generation are conceded (`RowCheck.unverifiable`) and the walk goes on from their stored hash.

Ed25519 is outside the repository. A `VerifyingKey` is its strict verification function. What
an intact walk proves depends on the rows only through the message each stands for, and is
said here once for every chain: a `SignedLog` is a list of rows the key signed, and
`SignedLog.exists_matches_of_intact` finds the walked rows at its beginning.
-/

namespace Sysknife.Audit

/-! ### Keys -/

/-- A raw Ed25519 signature. -/
abbrev Signature := { bytes : Bytes // bytes.length = 64 }

/-- The public key, as strict verification of a signature over a message. -/
abbrev VerifyingKey := Bytes → Signature → Bool

/-- The daemon's signing key. -/
structure AuditKey where
  /-- Key generation, stored in every row. -/
  keyId : String
  sign : Bytes → Signature
  verifyingKey : VerifyingKey

namespace AuditKey

variable (key : AuditKey)

/-- The `chain_hash` column of a transaction row: its signature in hexadecimal. -/
def chainHash (content : ChainContent) (prevChainHash : String) : String :=
  Hex.encode (key.sign (chainMessage content prevChainHash)).1

/-- The `chain_hash` column of an event row. -/
def eventHash (content : EventContent) (prevChainHash : String) : String :=
  Hex.encode (key.sign (eventMessage content prevChainHash)).1

/-- The bearer receipt of one preview. -/
def approvalReceipt (transactionId requestHash : String) : String :=
  Hex.encode (key.sign (approvalMessage transactionId requestHash)).1

end AuditKey

/-! ### The walk -/

/-- Result of verifying a chain. -/
inductive VerifyOutcome
  | intact (rowsChecked : ℕ)
  | broken (rowsChecked firstBrokenSeq : ℕ) (firstBrokenTransactionId expected actual : String)
  | cannotVerify (reason : String)
  deriving DecidableEq, Repr

/-- What the walk learned about one row, apart from its link. -/
inductive RowCheck
  | verified
  | unverifiable (reason : String)
  | broken (expected actual : String)
  deriving DecidableEq, Repr

/-- The linkage columns every chained table shares. -/
class ChainLink (R : Type) where
  seq : R → ℕ
  transactionId : R → String
  prevChainHash : R → String
  chainHash : R → String

section Walk

variable {R : Type} [ChainLink R] (check : R → RowCheck)

/-- The loop of `walkChain`, with its four running variables. -/
def walkFrom (lastHash : String) (rowsChecked : ℕ) (firstUnverifiable : Option String)
    (unverifiable : ℕ) : List R → VerifyOutcome
  | [] =>
    match firstUnverifiable with
    | none => .intact rowsChecked
    | some first =>
      .cannotVerify (first ++ "; " ++ toString unverifiable ++
        " row(s) could not be checked, " ++ toString rowsChecked ++
        " other row(s) verified and every link is intact")
  | row :: rows =>
    if ChainLink.prevChainHash row ≠ lastHash then
      .broken rowsChecked (ChainLink.seq row) (ChainLink.transactionId row)
        ("prev_chain_hash=" ++ lastHash) ("prev_chain_hash=" ++ ChainLink.prevChainHash row)
    else
      match check row with
      | .verified =>
        walkFrom (ChainLink.chainHash row) (rowsChecked + 1) firstUnverifiable unverifiable rows
      | .unverifiable reason =>
        walkFrom (ChainLink.chainHash row) rowsChecked (some (firstUnverifiable.getD reason))
          (unverifiable + 1) rows
      | .broken expected actual =>
        .broken rowsChecked (ChainLink.seq row) (ChainLink.transactionId row) expected actual

/-- Walk the rows in sequence order, checking each link and then each signature. The first
provable break ends the walk; an unverifiable row does not. -/
def walkChain (rows : List R) : VerifyOutcome := walkFrom check "" 0 none 0 rows

/-- The rows the walk counts as verified, in order. -/
def countedFrom (lastHash : String) : List R → List R
  | [] => []
  | row :: rows =>
    if ChainLink.prevChainHash row ≠ lastHash then []
    else
      match check row with
      | .verified => row :: countedFrom (ChainLink.chainHash row) rows
      | .unverifiable _ => countedFrom (ChainLink.chainHash row) rows
      | .broken _ _ => []

/-- The rows `walkChain` counts as verified. -/
def countedRows (rows : List R) : List R := countedFrom check "" rows

variable {check}

/-- The counter the walk reports is the number of rows it counted. -/
theorem rowsChecked_of_walkFrom_intact {rows : List R} {last : String} {k n u : ℕ}
    {first : Option String} (h : walkFrom check last k first u rows = .intact n) :
    n = k + (countedFrom check last rows).length := by
  induction rows generalizing last k first u with
  | nil =>
    cases first with
    | none => simpa [walkFrom, countedFrom] using h.symm
    | some first => simp [walkFrom] at h
  | cons row rows ih =>
    simp only [walkFrom] at h
    split at h
    · cases h
    · rename_i hlink
      split at h
      · rename_i hcheck
        rw [ih h, countedFrom, if_neg hlink, hcheck, List.length_cons]
        omega
      · rename_i hcheck
        rw [ih h, countedFrom, if_neg hlink, hcheck]
      · cases h

/-- An intact walk followed every link and verified every row. -/
theorem of_walkFrom_intact {row : R} {rows : List R} {last : String} {k n u : ℕ}
    {first : Option String} (h : walkFrom check last k first u (row :: rows) = .intact n) :
    ChainLink.prevChainHash row = last ∧ check row = .verified ∧
      walkFrom check (ChainLink.chainHash row) (k + 1) first u rows = .intact n := by
  -- a concession would surface in the outcome of the rest of the walk
  have hconceded (rows : List R) : ∀ (last reason : String) (k u : ℕ),
      walkFrom check last k (some reason) u rows ≠ .intact n := by
    induction rows with
    | nil => simp [walkFrom]
    | cons row rows ih =>
      intro last reason k u
      simp only [walkFrom]
      split_ifs
      · simp
      · split
        · exact ih _ _ _ _
        · exact ih _ _ _ _
        · simp
  simp only [walkFrom] at h
  split_ifs at h with hlink
  refine ⟨not_not.mp hlink, ?_⟩
  split at h
  · rename_i hcheck
    exact ⟨hcheck, h⟩
  · exact absurd h (hconceded rows _ _ _ _)
  · cases h

/-- Every counted row is one of the rows walked, and its check passed. -/
theorem mem_and_verified_of_mem_countedFrom {rows : List R} {last : String} {row : R}
    (h : row ∈ countedFrom check last rows) : row ∈ rows ∧ check row = .verified := by
  induction rows generalizing last with
  | nil => simp [countedFrom] at h
  | cons r rows ih =>
    simp only [countedFrom] at h
    split_ifs at h with hlink
    · simp at h
    · split at h
      · rename_i hcheck
        rcases List.mem_cons.mp h with rfl | h
        · exact ⟨List.mem_cons_self, hcheck⟩
        · exact ⟨List.mem_cons_of_mem _ (ih h).1, (ih h).2⟩
      · exact ⟨List.mem_cons_of_mem _ (ih h).1, (ih h).2⟩
      · simp at h

end Walk

/-! ### Checking signatures -/

/-- Does the stored hexadecimal signature verify over the message? Malformed text fails. -/
def signatureOk (vk : VerifyingKey) (msg : Bytes) (sigHex : String) : Bool :=
  match Hex.decode sigHex with
  | none => false
  | some bytes => if h : bytes.length = 64 then vk msg ⟨bytes, h⟩ else false

/-- Escape of one character in a quoted rendering. Control characters beyond the named ones
are written with their code point. -/
def debugChar (c : Char) : String :=
  if c = '\t' then "\\t"
  else if c = '\r' then "\\r"
  else if c = '\n' then "\\n"
  else if c = '\x00' then "\\0"
  else if c = '"' then "\\\""
  else if c = '\\' then "\\\\"
  else if c.toNat < 32 ∨ c.toNat = 127 then
    "\\u\x7b" ++ String.ofList (Nat.toDigits 16 c.toNat) ++ "\x7d"
  else String.singleton c

/-- Quoted rendering of a string in a diagnostic. -/
def debugStr (s : String) : String := "\"" ++ String.join (s.toList.map debugChar) ++ "\""

/-- A signature the loaded key did not reproduce: conceded only when the row names another key
generation. -/
def failedSignature (what : String) (seq : ℕ) (keyId : String) (expectKeyId : Option String)
    (chainHash : String) : RowCheck :=
  let broken := RowCheck.broken "valid ed25519 signature" chainHash
  match expectKeyId with
  | some kid =>
    if keyId ≠ kid then
      .unverifiable (what ++ " seq=" ++ toString seq ++ " uses key_id=" ++ debugStr keyId ++
        " but only " ++ debugStr kid ++ " is loaded, and the loaded key does not reproduce its " ++
        "signature; epoch keys not yet supported")
    else broken
  | none => broken


theorem signatureOk_iff {vk : VerifyingKey} {msg : Bytes} {sigHex : String} :
    signatureOk vk msg sigHex = true ↔
      ∃ sig : Signature, Hex.decode sigHex = some sig.1 ∧ vk msg sig = true := by
  unfold signatureOk
  split
  · rename_i hdecode
    simp [hdecode]
  · rename_i bytes hdecode
    constructor
    · intro h
      split_ifs at h with hlen
      exact ⟨⟨bytes, hlen⟩, hdecode, h⟩
    · rintro ⟨sig, hsig, hvk⟩
      obtain rfl : bytes = sig.1 := Option.some.inj (hdecode.symm.trans hsig)
      rw [dif_pos sig.2]
      exact hvk

/-- A signature as the daemon stores it verifies when the key accepts it. -/
theorem signatureOk_encode {vk : VerifyingKey} {msg : Bytes} {sig : Signature}
    (h : vk msg sig = true) : signatureOk vk msg (Hex.encode sig.1) = true :=
  signatureOk_iff.mpr ⟨sig, Hex.decode_encode sig.1, h⟩

theorem failedSignature_ne_verified (what : String) (seq : ℕ) (keyId : String)
    (expectKeyId : Option String) (chainHash : String) :
    failedSignature what seq keyId expectKeyId chainHash ≠ .verified := by
  unfold failedSignature
  split
  · split_ifs <;> simp
  · simp

/-- Where one signature stands for one message, one text is a signature of one message. -/
theorem message_eq_of_signatureOk {vk : VerifyingKey}
    (binding : ∀ m m' sig, vk m sig = true → vk m' sig = true → m = m') {m m' : Bytes}
    {sigHex : String} (h : signatureOk vk m sigHex = true) (h' : signatureOk vk m' sigHex = true) :
    m = m' := by
  obtain ⟨sig, hdecode, hvk⟩ := signatureOk_iff.mp h
  obtain ⟨sig', hdecode', hvk'⟩ := signatureOk_iff.mp h'
  obtain rfl : sig = sig' := Subtype.ext (Option.some.inj (hdecode.symm.trans hdecode'))
  exact binding m m' sig hvk hvk'

theorem us_notMem_of_decode {s : String} {bytes : Bytes} (h : Hex.decode s = some bytes) :
    0x1F ∉ utf8 s :=
  Hex.notMem_of_decode h (by decide)

/-- Text that verifies as a signature is hexadecimal. -/
theorem us_notMem_of_signatureOk {vk : VerifyingKey} {msg : Bytes} {sigHex : String}
    (h : signatureOk vk msg sigHex = true) : 0x1F ∉ utf8 sigHex := by
  obtain ⟨sig, hdecode, -⟩ := signatureOk_iff.mp h
  exact us_notMem_of_decode hdecode

/-- The empty text is no signature. -/
theorem ne_empty_of_signatureOk {vk : VerifyingKey} {msg : Bytes} {sigHex : String}
    (h : signatureOk vk msg sigHex = true) : sigHex ≠ "" := by
  rintro rfl
  obtain ⟨sig, hdecode, -⟩ := signatureOk_iff.mp h
  have hempty : ([] : Bytes) = sig.1 := Option.some.inj hdecode
  simpa [← hempty] using sig.2

/-! ### Logs a key signed -/

/-- A list related to an append falls apart the same way. -/
theorem exists_append_of_forall₂ {α β : Type} {P : α → β → Prop} {xs ys : List α} {zs : List β}
    (h : List.Forall₂ P (xs ++ ys) zs) :
    ∃ us vs, zs = us ++ vs ∧ List.Forall₂ P xs us ∧ List.Forall₂ P ys vs := by
  induction xs generalizing zs with
  | nil => exact ⟨[], zs, rfl, .nil, h⟩
  | cons x xs ih =>
    obtain ⟨z, zs, hxz, hrest, rfl⟩ := List.forall₂_cons_left_iff.mp h
    obtain ⟨us, vs, rfl, hus, hvs⟩ := ih hrest
    exact ⟨z :: us, vs, rfl, .cons hxz hus, hvs⟩

section SignedLog

variable {R : Type} [ChainLink R]

/-- The hash the row after `rows` has to point at. -/
def tipOf (rows : List R) : String := (rows.getLast?.map ChainLink.chainHash).getD ""

@[simp]
theorem tipOf_nil : tipOf ([] : List R) = "" := rfl

@[simp]
theorem tipOf_concat (rows : List R) (a : R) : tipOf (rows ++ [a]) = ChainLink.chainHash a := by
  simp [tipOf]

/-- The links of `rows` hold, from the hash `last` on. -/
def LinksFrom : String → List R → Prop
  | _, [] => True
  | last, row :: rows =>
    ChainLink.prevChainHash row = last ∧ LinksFrom (ChainLink.chainHash row) rows

theorem linksFrom_append {last : String} {rows rows' : List R} :
    LinksFrom last (rows ++ rows') ↔ LinksFrom last rows ∧
      LinksFrom ((rows.getLast?.map ChainLink.chainHash).getD last) rows' := by
  induction rows generalizing last with
  | nil => simp [LinksFrom]
  | cons row rows ih =>
    have hlast : ((row :: rows).getLast?.map ChainLink.chainHash).getD last =
        (rows.getLast?.map ChainLink.chainHash).getD (ChainLink.chainHash row) := by
      rw [List.getLast?_cons]
      cases rows.getLast? <;> rfl
    rw [hlast, List.cons_append, LinksFrom, LinksFrom, ih, and_assoc]

/-- An intact walk followed every link. -/
theorem linksFrom_of_walkFrom_intact {check : R → RowCheck} {rows : List R} {last : String}
    {k n u : ℕ} {first : Option String} (h : walkFrom check last k first u rows = .intact n) :
    LinksFrom last rows := by
  induction rows generalizing last k with
  | nil => trivial
  | cons row rows ih =>
    obtain ⟨hlink, -, hrest⟩ := of_walkFrom_intact h
    exact ⟨hlink, ih hrest⟩

/-- Linked rows that all pass their check are walked to the end. -/
theorem walkFrom_intact {check : R → RowCheck} {rows : List R} {last : String} {k u : ℕ}
    (hlinks : LinksFrom last rows) (hcheck : ∀ row ∈ rows, check row = .verified) :
    walkFrom check last k none u rows = .intact (k + rows.length) := by
  induction rows generalizing last k with
  | nil => rfl
  | cons row rows ih =>
    obtain ⟨hlink, hlinks⟩ := hlinks
    simp only [walkFrom]
    rw [if_neg (not_not.mpr hlink), hcheck row List.mem_cons_self]
    simp only
    rw [ih hlinks fun r hr => hcheck r (List.mem_cons_of_mem _ hr), List.length_cons]
    congr 1
    omega

/-- Rows appended one after the other, each numbered after the last, pointing at it, and
`Signed`. -/
inductive Chained (Signed : R → Prop) : List R → Prop
  | nil : Chained Signed []
  | append {rows : List R} {row : R} (hrows : Chained Signed rows)
      (hseq : ChainLink.seq row = (rows.getLast?.map ChainLink.seq).getD 0 + 1)
      (hprev : ChainLink.prevChainHash row = tipOf rows) (hsigned : Signed row) :
      Chained Signed (rows ++ [row])

section Chained

variable {Signed : R → Prop}

theorem Chained.linksFrom {rows : List R} (h : Chained Signed rows) : LinksFrom "" rows := by
  induction h with
  | nil => trivial
  | append _ _ hprev _ ih => exact linksFrom_append.mpr ⟨ih, hprev, trivial⟩

/-- Every row of a chain sits where its columns say: its number counts the rows before it, it
points at the last of them, and it is signed. -/
theorem Chained.split {rows pre post : List R} {row : R} (h : Chained Signed rows)
    (hrows : rows = pre ++ row :: post) :
    Chained Signed pre ∧ ChainLink.seq row = pre.length + 1 ∧
      ChainLink.prevChainHash row = tipOf pre ∧ Signed row := by
  induction h generalizing pre row post with
  | nil => simp at hrows
  | @append rows last hrows' hseq hprev hsigned ih =>
    rcases List.eq_nil_or_concat post with rfl | ⟨post, x, rfl⟩
    · obtain ⟨rfl, hlast⟩ := List.append_inj' hrows rfl
      obtain rfl := List.singleton_inj.mp hlast
      refine ⟨hrows', ?_, hprev, hsigned⟩
      rw [hseq]
      rcases List.eq_nil_or_concat rows with rfl | ⟨rows, y, rfl⟩
      · rfl
      · have hy := (ih (show rows.concat y = rows ++ y :: [] by simp)).2.1
        simp [hy]
    · have hrows : rows ++ [last] = (pre ++ row :: post) ++ [x] := by simpa using hrows
      exact ih (List.append_inj' hrows rfl).1

/-- Equal numbers mean equal places. -/
theorem Chained.eq_of_seq_eq {rows pre post pre' post' : List R} {a a' : R}
    (h : Chained Signed rows) (ha : rows = pre ++ a :: post) (ha' : rows = pre' ++ a' :: post')
    (hseq : ChainLink.seq a = ChainLink.seq a') : pre = pre' ∧ a = a' := by
  have hlen : pre.length = pre'.length := by
    have h₁ := (h.split ha).2.1
    have h₂ := (h.split ha').2.1
    omega
  obtain ⟨hpre, hrest⟩ := List.append_inj (ha.symm.trans ha') hlen
  exact ⟨hpre, (List.cons.inj hrest).1⟩

end Chained

/-- Rows a key signed and linked, with the messages their columns stand for. Ideal signatures
enter as `sound`, no message of a row verifies unless it is in the log, and `binding`, one
signature stands for one message. -/
structure SignedLog (R : Type) [ChainLink R] (vk : VerifyingKey) where
  rows : List R
  /-- The message the columns of a row are signed as. -/
  MessageOf : R → Bytes → Prop
  linked : LinksFrom "" rows
  signed : ∀ a ∈ rows, ∃ m, MessageOf a m ∧ signatureOk vk m (ChainLink.chainHash a) = true
  place : ∀ m pre a post pre' a' post', rows = pre ++ a :: post → rows = pre' ++ a' :: post' →
    MessageOf a m → MessageOf a' m → pre = pre'
  prev : ∀ r a m, 0x1F ∉ utf8 (ChainLink.prevChainHash r) →
    0x1F ∉ utf8 (ChainLink.prevChainHash a) → MessageOf r m → MessageOf a m →
      ChainLink.prevChainHash r = ChainLink.prevChainHash a
  sound : ∀ r m sig, MessageOf r m → vk m sig = true → ∃ a ∈ rows, MessageOf a m
  binding : ∀ m m' sig, vk m sig = true → vk m' sig = true → m = m'

namespace SignedLog

variable {vk : VerifyingKey} (L : SignedLog R vk)

/-- Row `r` stands for the same message as the row `a` of the log, under a hash that verifies,
and points at the same hash. -/
structure Matches (r a : R) : Prop where
  message : ∃ m, L.MessageOf r m ∧ L.MessageOf a m ∧
    signatureOk vk m (ChainLink.chainHash r) = true
  prev : ChainLink.prevChainHash r = ChainLink.prevChainHash a
  unframed : 0x1F ∉ utf8 (ChainLink.prevChainHash a)

variable {L}

/-- Each row of the log points at the row before it. -/
theorem prevChainHash_eq {pre post : List R} {a : R} (h : L.rows = pre ++ a :: post) :
    ChainLink.prevChainHash a = tipOf pre := by
  have hlinked := L.linked
  rw [h, linksFrom_append] at hlinked
  exact hlinked.2.1

/-- One text is a signature of one message. -/
theorem message_eq (L : SignedLog R vk) {m m' : Bytes} {sigHex : String}
    (h : signatureOk vk m sigHex = true) (h' : signatureOk vk m' sigHex = true) : m = m' :=
  message_eq_of_signatureOk L.binding h h'

/-- The tip of a piece of the log is empty or hexadecimal. -/
theorem us_notMem_tipOf {pre post : List R} (h : L.rows = pre ++ post) :
    0x1F ∉ utf8 (tipOf pre) := by
  rcases List.eq_nil_or_concat pre with rfl | ⟨pre, last, rfl⟩
  · simp
  · have hmem : last ∈ L.rows := by simp [h]
    obtain ⟨m, -, hok⟩ := L.signed last hmem
    simpa using us_notMem_of_signatureOk hok

/-- The walk can stand at `last` after reading the beginning `pre` of the log: it is the start
of the chain, or text that verifies as a signature of the last row of `pre`. -/
def Reached (L : SignedLog R vk) (pre : List R) (last : String) : Prop :=
  match pre.getLast? with
  | none => last = ""
  | some a => ∃ m, L.MessageOf a m ∧ signatureOk vk m last = true

theorem reached_nil {last : String} : L.Reached [] last ↔ last = "" := Iff.rfl

theorem reached_concat {pre : List R} {a : R} {last : String} :
    L.Reached (pre ++ [a]) last ↔ ∃ m, L.MessageOf a m ∧ signatureOk vk m last = true := by
  simp [Reached]

theorem us_notMem_of_reached {pre : List R} {last : String} (h : L.Reached pre last) :
    0x1F ∉ utf8 last := by
  rcases List.eq_nil_or_concat pre with rfl | ⟨pre, a, rfl⟩
  · rw [reached_nil] at h
    simp [h]
  · rw [List.concat_eq_append, reached_concat] at h
    obtain ⟨m, -, hok⟩ := h
    exact us_notMem_of_signatureOk hok

/-- The piece of the log whose tip is a reached hash is the piece that was read. -/
theorem eq_of_reached_tipOf {pre pre' post post' : List R} (hpre : L.rows = pre ++ post)
    (hpre' : L.rows = pre' ++ post') (hreach : L.Reached pre (tipOf pre')) : pre = pre' := by
  rcases List.eq_nil_or_concat pre' with rfl | ⟨pre', b, rfl⟩
  · rcases List.eq_nil_or_concat pre with rfl | ⟨pre, a, rfl⟩
    · rfl
    · rw [List.concat_eq_append, reached_concat] at hreach
      obtain ⟨m, -, hok⟩ := hreach
      exact absurd rfl (ne_empty_of_signatureOk hok)
  · have hb : L.rows = pre' ++ b :: post' := by simpa using hpre'
    obtain ⟨m, hm, hok⟩ := L.signed b (by simp [hb])
    rw [List.concat_eq_append, tipOf_concat] at hreach
    rcases List.eq_nil_or_concat pre with rfl | ⟨pre, a, rfl⟩
    · exact absurd (reached_nil.mp hreach) (ne_empty_of_signatureOk hok)
    · rw [List.concat_eq_append, reached_concat] at hreach
      obtain ⟨m', hm', hok'⟩ := hreach
      -- one signature, one message, one place in the log
      obtain rfl := L.message_eq hok hok'
      have ha : L.rows = pre ++ a :: post := by simpa using hpre
      obtain rfl := L.place m pre a post pre' b post' ha hb hm' hm
      have hhead := List.append_cancel_left (ha.symm.trans hb)
      rw [(List.cons.inj hhead).1]

/-- One step of an intact walk advances along the log. -/
theorem exists_matches_of_reached {pre post : List R} {row : R} {m : Bytes}
    (hL : L.rows = pre ++ post) (hreach : L.Reached pre (ChainLink.prevChainHash row))
    (hm : L.MessageOf row m) (hok : signatureOk vk m (ChainLink.chainHash row) = true) :
    ∃ a post', post = a :: post' ∧ L.Matches row a ∧
      L.Reached (pre ++ [a]) (ChainLink.chainHash row) := by
  obtain ⟨sig, -, hvk⟩ := signatureOk_iff.mp hok
  obtain ⟨a, ha, hma⟩ := L.sound row m sig hm hvk
  obtain ⟨pre', post', hsplit⟩ := List.append_of_mem ha
  have htip := prevChainHash_eq hsplit
  have hunframed : 0x1F ∉ utf8 (ChainLink.prevChainHash a) := htip ▸ us_notMem_tipOf hsplit
  have hprev := L.prev row a m (us_notMem_of_reached hreach) hunframed hm hma
  have hreach' : L.Reached pre (tipOf pre') := by rwa [← htip, ← hprev]
  obtain rfl := eq_of_reached_tipOf hL hsplit hreach'
  have hpost : post = a :: post' := List.append_cancel_left (hL.symm.trans hsplit)
  exact ⟨a, post', hpost, ⟨⟨m, hm, hma, hok⟩, hprev, hunframed⟩, reached_concat.mpr ⟨m, hma, hok⟩⟩

/-- Matching rows have equal hashes when their links hold and their tips are equal: each hash
is named by the row after it. -/
theorem forall₂_chainHash_eq {rows pre : List R} {last last' : String}
    (h : List.Forall₂ L.Matches rows pre) (hrows : LinksFrom last rows)
    (hpre : LinksFrom last' pre) (htip : tipOf rows = tipOf pre) :
    List.Forall₂ (fun r a => L.Matches r a ∧ ChainLink.chainHash r = ChainLink.chainHash a)
      rows pre := by
  induction h generalizing last last' with
  | nil => exact .nil
  | @cons r a rows pre hra hrest ih =>
    cases hrest with
    | nil => exact .cons ⟨hra, htip⟩ .nil
    | @cons r' a' rows pre hra' hrest =>
      have hr : ChainLink.prevChainHash r' = ChainLink.chainHash r := hrows.2.1
      have ha : ChainLink.prevChainHash a' = ChainLink.chainHash a := hpre.2.1
      have hhash : ChainLink.chainHash r = ChainLink.chainHash a := by
        rw [← hr, ← ha, hra'.prev]
      exact .cons ⟨hra, hhash⟩ (ih hrows.2 hpre.2 (by simpa [tipOf] using htip))

section Checked

variable {check : R → RowCheck}
  (hcheck : ∀ r, check r = .verified →
    ∃ m, L.MessageOf r m ∧ signatureOk vk m (ChainLink.chainHash r) = true)

include hcheck

theorem exists_matches_of_walkFrom_intact {rows pre post : List R} {last : String} {k n u : ℕ}
    {first : Option String} (hL : L.rows = pre ++ post) (hreach : L.Reached pre last)
    (h : walkFrom check last k first u rows = .intact n) :
    ∃ mid, mid <+: post ∧ List.Forall₂ L.Matches rows mid := by
  induction rows generalizing pre post last k with
  | nil => exact ⟨[], List.nil_prefix, .nil⟩
  | cons row rows ih =>
    obtain ⟨hlink, hverified, hrest⟩ := of_walkFrom_intact h
    obtain ⟨m, hm, hok⟩ := hcheck row hverified
    have hreach : L.Reached pre (ChainLink.prevChainHash row) := by rwa [hlink]
    obtain ⟨a, post', rfl, hmatch, hreach'⟩ := exists_matches_of_reached hL hreach hm hok
    obtain ⟨mid, hmid, hrows⟩ := ih (by simpa using hL) hreach' hrest
    exact ⟨a :: mid, List.prefix_cons_inj a |>.mpr hmid, .cons hmatch hrows⟩

/-- **Tamper evidence of a signed log.** The rows of an intact walk match, in order, the rows
at the beginning of the log. -/
theorem exists_matches_of_intact {rows : List R} {n : ℕ}
    (h : walkChain check rows = .intact n) :
    ∃ pre, pre <+: L.rows ∧ List.Forall₂ L.Matches rows pre :=
  exists_matches_of_walkFrom_intact hcheck rfl (reached_nil.mpr rfl) h

/-- **A hash vouches for all before it.** If a row of an intact walk stores the hash of row `a`
of the log, the walk begins with the log up to `a`, hashes included. -/
theorem exists_kept_of_chainHash_mem {rows pre post : List R} {a r : R} {n : ℕ}
    (h : walkChain check rows = .intact n) (hL : L.rows = pre ++ a :: post) (hr : r ∈ rows)
    (hhash : ChainLink.chainHash r = ChainLink.chainHash a) :
    ∃ kept, kept <+: rows ∧
      List.Forall₂ (fun r a => L.Matches r a ∧ ChainLink.chainHash r = ChainLink.chainHash a)
        kept (pre ++ [a]) := by
  obtain ⟨mid, ⟨rest, hmid⟩, hrows⟩ := exists_matches_of_intact hcheck h
  obtain ⟨rs, rs', rfl⟩ := List.append_of_mem hr
  obtain ⟨ms, bms, rfl, hms, hbms⟩ := exists_append_of_forall₂ hrows
  obtain ⟨b, ms', hrb, -, rfl⟩ := List.forall₂_cons_left_iff.mp hbms
  -- the hash is a signature of one message only, and that message has one place in the log
  obtain ⟨m, -, hbm, hok⟩ := hrb.message
  obtain ⟨m', ham, hok'⟩ := L.signed a (by simp [hL])
  obtain rfl := L.message_eq hok (hhash ▸ hok')
  have hb : L.rows = ms ++ b :: (ms' ++ rest) := by simpa using hmid.symm
  obtain rfl := L.place m ms b _ pre a post hb hL hbm ham
  obtain ⟨rfl, -⟩ := List.cons.inj (List.append_cancel_left (hb.symm.trans hL))
  have hlinks := linksFrom_of_walkFrom_intact h
  have hlinked := L.linked
  rw [List.append_cons, linksFrom_append] at hlinks
  rw [hb, List.append_cons, linksFrom_append] at hlinked
  refine ⟨rs ++ [r], ⟨rs', by simp⟩, forall₂_chainHash_eq ?_ hlinks.1 hlinked.1 ?_⟩
  · exact List.rel_append hms (.cons hrb .nil)
  · rw [tipOf_concat, tipOf_concat, hhash]

end Checked

end SignedLog

end SignedLog

end Sysknife.Audit
