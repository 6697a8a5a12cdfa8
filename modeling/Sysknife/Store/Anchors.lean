import Sysknife.Audit.Checkpoints
import Sysknife.Store.Honest

/-!
# Anchoring a live store

Two programs anchor the tip of the chain beside the daemon that writes it: the task that runs at
intervals, and `sysknife audit checkpoint`. Each fetches the rows at one moment and anchors them
at a later one, so a row may be appended, and anchored by another, in between.

* `binarySearchBySeq_of_numbered`: among rows numbered from 1 the search misses no row.
* `checkpointsFrom_of_checkpointsOf`: the comparison of a beginning of the chain with checkpoints
  of the chain finds the first checkpoint beyond the beginning, and nothing else.
* `Watched.run`: in every run the sink holds checkpoints of the chain and nothing else.

`anchoring_exact` says from this what anchoring reports: no false alarm where one task anchors,
and a beginning of the chain is taken for the whole exactly where no checkpoint lies beyond it.
-/

namespace Sysknife.Store

open Audit Relation

/-! ### The search misses no row -/

/-- The rows are numbered in order, from 1. -/
def Numbered (rows : List ChainRow) : Prop := ∀ i row, rows[i]? = some row → row.seq = i + 1

/-- The place of the row stays within the part of the rows that is left. -/
theorem searchLoop_of_numbered {rows : List ChainRow} (h : Numbered rows) {i : ℕ}
    {rounds base size : ℕ} (hbase : base ≤ i) (hi : i < base + size)
    (hsize : base + size ≤ rows.length) (hrounds : size ≤ rounds + 1) :
    searchLoop rows (i + 1) rounds base size = i := by
  induction rounds generalizing base size with
  | zero =>
    rw [searchLoop]
    omega
  | succ rounds ih =>
    rw [searchLoop]
    split_ifs with hone
    · omega
    have hmid : base + size / 2 < rows.length := by omega
    have hget : rows[base + size / 2]? = some rows[base + size / 2] :=
      List.getElem?_eq_getElem hmid
    have hseq := h _ _ hget
    simp only [hget, hseq]
    by_cases hlow : i + 1 < base + size / 2 + 1
    · rw [if_pos hlow]
      exact ih hbase (by omega) (by omega) (by omega)
    · rw [if_neg hlow]
      exact ih (by omega) (by omega) (by omega) (by omega)

/-- The search finds the row of a number wherever there is one. -/
theorem binarySearchBySeq_of_numbered {rows : List ChainRow} (h : Numbered rows) (i : ℕ) :
    binarySearchBySeq rows (i + 1) = rows[i]? := by
  by_cases hi : i < rows.length
  · have hget : rows[i]? = some rows[i] := List.getElem?_eq_getElem hi
    have hplace := searchLoop_of_numbered h (i.zero_le) (by omega : i < 0 + rows.length)
      (by omega) (by omega : rows.length ≤ rows.length + 1)
    rw [binarySearchBySeq, hplace, hget, Option.filter_some,
      if_pos (decide_eq_true (h i _ hget))]
  · rw [List.getElem?_eq_none (not_lt.mp hi)]
    cases hfound : binarySearchBySeq rows (i + 1) with
    | none => rfl
    | some row =>
      obtain ⟨hmem, hseq⟩ := of_binarySearchBySeq hfound
      obtain ⟨j, hj, hrow⟩ := List.getElem_of_mem hmem
      have hjseq := h j row (by rw [List.getElem?_eq_getElem hj, hrow])
      omega

/-! ### Beginnings of a chain -/

section Beginnings

variable {key : AuditKey} {chain rows : List ChainRow}

theorem numbered_of_appended (h : Appended key chain) : Numbered chain := by
  intro i row hrow
  obtain ⟨hi, rfl⟩ := List.getElem?_eq_some_iff.mp hrow
  have hsplit : chain = chain.take i ++ chain[i] :: chain.drop (i + 1) := by
    rw [← List.drop_eq_getElem_cons hi, List.take_append_drop]
  rw [(h.split hsplit).2.1, List.length_take_of_le hi.le]

/-- A beginning of an appended chain was the chain once. -/
theorem appended_of_isPrefix (h : Appended key chain) (hrows : rows <+: chain) :
    Appended key rows := by
  obtain ⟨post, rfl⟩ := hrows
  cases post with
  | nil => rwa [List.append_nil] at h
  | cons row post => exact (h.split rfl).1

theorem getElem?_of_isPrefix (hrows : rows <+: chain) {i : ℕ} (hi : i < rows.length) :
    rows[i]? = chain[i]? := by
  obtain ⟨post, rfl⟩ := hrows
  exact (List.getElem?_append_left hi).symm

/-- The last number of an appended chain counts its rows. -/
theorem lastSeq_of_appended (h : Appended key rows) :
    (rows.getLast?.map ChainRow.seq).getD 0 = rows.length := by
  cases hlast : rows.getLast? with
  | none => rw [List.getLast?_eq_none_iff.mp hlast, Option.map_none, Option.getD_none,
      List.length_nil]
  | some row =>
    rw [List.getLast?_eq_getElem?] at hlast
    have hpos : 0 < rows.length := by
      have hlt := (List.getElem?_eq_some_iff.mp hlast).1
      omega
    rw [Option.map_some, Option.getD_some, numbered_of_appended h _ _ hlast]
    omega

theorem verifyChain_of_appended (hsign : ∀ m, key.verifyingKey m (key.sign m) = true)
    (h : Appended key rows) : verifyChain key rows = .intact rows.length :=
  walkChain_of_chained (appended_iff_chained.mp h) fun _ => checkRow_of_signedRow hsign

/-! ### Checkpoints of a chain -/

/-- A checkpoint of one of the rows, signed under the key. -/
def CheckpointOf (key : AuditKey) (chain : List ChainRow) (cp : Checkpoint) : Prop :=
  ∃ a ∈ chain, ∃ createdAt, cp = key.signCheckpoint a.seq a.chainHash createdAt

theorem CheckpointOf.mono {cp : Checkpoint} {chain' : List ChainRow}
    (h : CheckpointOf key chain cp) (hchain : chain <+: chain') : CheckpointOf key chain' cp := by
  obtain ⟨a, ha, hcp⟩ := h
  exact ⟨a, hchain.subset ha, hcp⟩

/-- The row of a checkpoint stands at its number. -/
theorem CheckpointOf.exists_row {cp : Checkpoint} (h : CheckpointOf key chain cp)
    (hchain : Appended key chain) : ∃ i a, chain[i]? = some a ∧ cp.seq = i + 1 ∧
      cp.chainTip = a.chainHash := by
  obtain ⟨a, ha, createdAt, rfl⟩ := h
  obtain ⟨i, hi⟩ := List.mem_iff_getElem?.mp ha
  exact ⟨i, a, hi, numbered_of_appended hchain i a hi, rfl⟩

theorem CheckpointOf.seq_le {cp : Checkpoint} (h : CheckpointOf key chain cp)
    (hchain : Appended key chain) : cp.seq ≤ chain.length := by
  obtain ⟨i, a, hi, hseq, -⟩ := h.exists_row hchain
  have hlt := (List.getElem?_eq_some_iff.mp hi).1
  omega

/-- The verdict on a beginning of `n` rows: the first checkpoint beyond it tells of a cut. -/
def beginningVerdict (checked n : ℕ) (cps : List Checkpoint) : CheckpointOutcome :=
  (cps.find? fun cp => n < cp.seq).elim (.consistent (checked + cps.length)) fun cp =>
    .truncated cp.seq n

/-- A beginning of the chain agrees with the checkpoints of its own rows, and with no other. -/
theorem checkpointsFrom_of_checkpointsOf (hsign : ∀ m, key.verifyingKey m (key.sign m) = true)
    (hchain : Appended key chain) (hrows : rows <+: chain) {cps : List Checkpoint}
    (hcps : ∀ cp ∈ cps, CheckpointOf key chain cp) (checked : ℕ) :
    checkpointsFrom key.verifyingKey rows checked cps =
      beginningVerdict checked rows.length cps := by
  have happended := appended_of_isPrefix hchain hrows
  induction cps generalizing checked with
  | nil => rfl
  | cons cp cps ih =>
    rw [List.forall_mem_cons] at hcps
    obtain ⟨hcp, hcps⟩ := hcps
    have hok : signatureOk key.verifyingKey (checkpointMessage cp.seq cp.chainTip cp.createdAt)
        cp.signature = true := by
      obtain ⟨a, -, createdAt, rfl⟩ := hcp
      exact signatureOk_encode (hsign _)
    obtain ⟨i, a, hget, hseq, htip⟩ := hcp.exists_row hchain
    have hsearch : binarySearchBySeq rows cp.seq = rows[i]? := by
      rw [hseq]
      exact binarySearchBySeq_of_numbered (numbered_of_appended happended) i
    rw [checkpointsFrom, hok, hsearch]
    by_cases hi : i < rows.length
    · have hwithin : ¬ rows.length < cp.seq := by omega
      have hcount : checked + 1 + cps.length = checked + (cps.length + 1) := by omega
      rw [getElem?_of_isPrefix hrows hi, hget]
      simp only [htip, Bool.not_true, Bool.false_eq_true, if_false, if_true]
      rw [ih hcps, beginningVerdict, beginningVerdict, List.length_cons, hcount,
        List.find?_cons_of_neg (by simpa using hwithin)]
    · have hbeyond : rows.length < cp.seq := by omega
      rw [List.getElem?_eq_none (not_lt.mp hi)]
      simp only [Bool.not_true, Bool.false_eq_true, if_false]
      rw [beginningVerdict, List.find?_cons_of_pos (by simpa using hbeyond), Option.elim_some,
        lastSeq_of_appended happended]

end Beginnings

/-! ### Anchoring beside the store -/

/-- The tables of a store, the rows each anchorer holds, the sink, and what was reported. -/
structure Watch where
  tables : Tables
  fetched : ℕ → Option (List ChainRow)
  anchored : List Checkpoint
  reports : List (Except CheckpointSinkError AnchorOutcome)

/-- What happens next: an operation of the store, or one of the two halves of an anchoring
attempt. A fetch that fails ends the attempt and leaves no trace. -/
inductive WatchStep
  | operation (clock : Clock) (op : StoreOp)
  | fetch (anchorer : ℕ)
  | anchor (anchorer : ℕ) (createdAt : String) (db : SinkAnswers)

namespace Watch

/-- A store and a sink before anyone anchors. -/
def start (tables : Tables) (anchored : List Checkpoint) : Watch :=
  ⟨tables, fun _ => none, anchored, []⟩

section Run

variable (env : StoreEnv) (key : AuditKey) (parse : String → Option VerifyingKey) (hex : String)

def step (w : Watch) : WatchStep → Watch
  | .operation clock op => { w with tables := op.apply env clock w.tables }
  | .fetch anchorer =>
    { w with fetched := Function.update w.fetched anchorer (some w.tables.chainRows) }
  | .anchor anchorer createdAt db =>
    match w.fetched anchorer with
    | none => w
    | some rows =>
      let (report, anchored) := anchorOnce key parse hex rows createdAt db w.anchored
      { w with
        fetched := Function.update w.fetched anchorer none
        anchored
        reports := w.reports ++ [report] }

def run (w : Watch) (steps : List WatchStep) : Watch := steps.foldl (step env key parse hex) w

end Run

end Watch

/-- A report that accuses no one: the sink failed, there was nothing to anchor, or the
checkpoint stands. -/
def Unalarming : Except CheckpointSinkError AnchorOutcome → Prop
  | .error _ => True
  | .ok .chainEmpty => True
  | .ok (.anchored _ _) => True
  | .ok _ => False

/-- The report says that the chain is shorter than an anchored row, and the row is there. -/
def Overtaken (length : ℕ) (report : Except CheckpointSinkError AnchorOutcome) : Prop :=
  ∃ seq n, report = .ok (.inconsistent (.truncated seq n)) ∧ n < seq ∧ seq ≤ length

/-- What an attempt reports once everything is read back. -/
def anchorReport (seq : ℕ) : CheckpointOutcome → AnchorOutcome
  | .consistent checkpointsChecked => .anchored seq checkpointsChecked
  | other => .inconsistent other

section Anchoring

variable {env : StoreEnv} {key : AuditKey} {parse : String → Option VerifyingKey} {hex : String}
  {s s' : Tables} {w : Watch}

/-- No write takes a row or an event away. -/
theorem isPrefix_of_steps (h : ReflTransGen (TableStep env key) s s') :
    s.chainRows <+: s'.chainRows ∧ s.events <+: s'.events := by
  induction h with
  | refl => exact ⟨List.prefix_rfl, List.prefix_rfl⟩
  | @tail s₁ _ _ hstep ih =>
    obtain ⟨hrows, hevents⟩ := ih
    cases hstep with
    | status p status =>
      rw [chainRows_setStatusWhere]
      exact ⟨hrows, hevents⟩
    | approvals => exact ⟨hrows, hevents⟩
    | previews => exact ⟨hrows, hevents⟩
    | event => exact ⟨hrows, hevents.trans (List.prefix_append s₁.events _)⟩
    | insert clock t tx =>
      refine ⟨hrows.trans ?_, hevents⟩
      have happended : Tables.chainRows { s₁ with transactions := s₁.transactions ++
          [newRow env clock key t tx s₁] } =
            s₁.chainRows ++ [(newRow env clock key t tx s₁).toChainRow] := by
        simp [Tables.chainRows]
      rw [happended]
      exact List.prefix_append _ _

theorem eq_of_append_ok {db : SinkAnswers} {cp : Checkpoint} {stored stored' : List Checkpoint}
    {u : Unit} (h : db.append cp stored = (.ok u, stored')) : stored' = stored ++ [cp] := by
  by_cases hrange : 2 ^ 63 ≤ cp.seq
  · rw [SinkAnswers.append, if_pos hrange] at h
    cases (Prod.mk.inj h).1
  · rw [SinkAnswers.append, if_neg hrange] at h
    cases herror : db.insertError with
    | some e =>
      rw [herror] at h
      cases (Prod.mk.inj h).1
    | none =>
      rw [herror] at h
      exact (Prod.mk.inj h).2.symm

/-- **One attempt on a beginning of the chain.** Unless the sink fails, or there are no rows,
the checkpoint is stored and the report compares the beginning with all that is stored. -/
theorem anchorOnce_of_isPrefix (hsign : ∀ m, key.verifyingKey m (key.sign m) = true)
    (hparse : parse hex = some key.verifyingKey) {chain rows : List ChainRow}
    (hchain : Appended key chain) (hrows : rows <+: chain) {stored : List Checkpoint}
    (hstored : ∀ cp ∈ stored, CheckpointOf key chain cp) (createdAt : String) (db : SinkAnswers) :
    (∃ e, (anchorOnce key parse hex rows createdAt db stored).1 = .error e) ∨
      (anchorOnce key parse hex rows createdAt db stored).1 = .ok .chainEmpty ∨
      ∃ tip cp, rows.getLast? = some tip ∧ cp = key.signCheckpoint tip.seq tip.chainHash createdAt ∧
        anchorOnce key parse hex rows createdAt db stored =
          (.ok (anchorReport tip.seq
            (beginningVerdict 0 rows.length (db.order (stored ++ [cp])))), stored ++ [cp]) := by
  cases htip : rows.getLast? with
  | none =>
    right; left
    simp only [anchorOnce, htip]
  | some tip =>
    have hverify := verifyChain_of_appended hsign (appended_of_isPrefix hchain hrows)
    cases happend : db.append (key.signCheckpoint tip.seq tip.chainHash createdAt) stored with
    | mk result stored' =>
      cases result with
      | error e =>
        left
        exact ⟨e, by simp only [anchorOnce, htip, hverify, happend]⟩
      | ok u =>
        have hstored' := eq_of_append_ok happend
        cases hload : db.loadError with
        | some e =>
          left
          exact ⟨.query e, by
            simp only [anchorOnce, htip, hverify, happend, SinkAnswers.loadAll, hload]⟩
        | none =>
          right; right
          refine ⟨tip, _, rfl, rfl, ?_⟩
          have hread : key.signCheckpoint tip.seq tip.chainHash createdAt ∈ db.order stored' := by
            rw [(db.order_perm stored').mem_iff, hstored']
            exact List.mem_concat_self
          have hgenuine : ∀ cp ∈ db.order stored', CheckpointOf key chain cp := by
            intro cp hcp
            rw [(db.order_perm stored').mem_iff, hstored'] at hcp
            rcases List.mem_append.mp hcp with hcp | hcp
            · exact hstored cp hcp
            · rw [List.mem_singleton.mp hcp]
              exact ⟨tip, hrows.subset (List.mem_of_getLast? htip), createdAt, rfl⟩
          have hcompared : verifyCheckpoints parse hex rows (db.order stored') =
              beginningVerdict 0 rows.length (db.order stored') := by
            rw [verifyCheckpoints, hparse]
            exact checkpointsFrom_of_checkpointsOf hsign hchain hrows hgenuine 0
          simp only [anchorOnce, htip, hverify, happend, SinkAnswers.loadAll, hload,
            if_neg (not_not.mpr hread), hcompared]
          rw [← hstored']
          cases beginningVerdict 0 rows.length (db.order stored') <;> rfl

theorem checkpointsOf_anchorOnce {chain rows : List ChainRow} (hrows : rows <+: chain)
    {stored : List Checkpoint} (hstored : ∀ cp ∈ stored, CheckpointOf key chain cp)
    (createdAt : String) (db : SinkAnswers) :
    ∀ cp ∈ (anchorOnce key parse hex rows createdAt db stored).2, CheckpointOf key chain cp := by
  intro cp hcp
  rcases anchorOnce_stored key parse hex ⟨rows, createdAt, db⟩ stored with h | ⟨tip, n, htip, -, h⟩
  · rw [h] at hcp
    exact hstored cp hcp
  · rw [h] at hcp
    rcases List.mem_append.mp hcp with hcp | hcp
    · exact hstored cp hcp
    · rw [List.mem_singleton.mp hcp]
      exact ⟨tip, hrows.subset (List.mem_of_getLast? htip), createdAt, rfl⟩

/-! ### Every run -/

/-- What holds at every moment: whoever fetched holds a beginning of the chain, the sink holds
checkpoints of the chain, and what was reported as anchored is among them. -/
structure Watched (key : AuditKey) (w : Watch) : Prop where
  honest : Honest key w.tables
  fetched : ∀ i rows, w.fetched i = some rows → rows <+: w.tables.chainRows
  anchored : ∀ cp ∈ w.anchored, CheckpointOf key w.tables.chainRows cp
  confirmed : ∀ seq k, .ok (.anchored seq k) ∈ w.reports → ∃ cp ∈ w.anchored, cp.seq = seq
  reports : ∀ report ∈ w.reports, Unalarming report ∨ Overtaken w.tables.chainRows.length report

theorem Watch.step_anchor_of_none {i : ℕ} (hi : w.fetched i = none) (createdAt : String)
    (db : SinkAnswers) : w.step env key parse hex (.anchor i createdAt db) = w := by
  simp only [Watch.step, hi]

theorem Watch.step_anchor_of_some {i : ℕ} {rows : List ChainRow} (hi : w.fetched i = some rows)
    (createdAt : String) (db : SinkAnswers) :
    w.step env key parse hex (.anchor i createdAt db) =
      { w with
        fetched := Function.update w.fetched i none
        anchored := (anchorOnce key parse hex rows createdAt db w.anchored).2
        reports := w.reports ++ [(anchorOnce key parse hex rows createdAt db w.anchored).1] } := by
  simp only [Watch.step, hi]

theorem Watched.start (hs : Honest key s) {stored : List Checkpoint}
    (hstored : ∀ cp ∈ stored, CheckpointOf key s.chainRows cp) :
    Watched key (Watch.start s stored) where
  honest := hs
  fetched i rows h := by cases h
  anchored := hstored
  confirmed seq k h := absurd h List.not_mem_nil
  reports report h := absurd h List.not_mem_nil

theorem Watched.appended (h : Watched key w) : Appended key w.tables.chainRows :=
  h.honest.written.appended

theorem Watched.operation (hkey : env.auditKey = some key) (h : Watched key w) (clock : Clock)
    (op : StoreOp) : Watched key (w.step env key parse hex (.operation clock op)) := by
  have hsteps : ReflTransGen (TableStep env key) w.tables (op.apply env clock w.tables) :=
    steps_apply hkey h.honest op
  have hrows := (isPrefix_of_steps hsteps).1
  refine ⟨h.honest.steps hsteps, fun i rows hi => (h.fetched i rows hi).trans hrows,
    fun cp hcp => (h.anchored cp hcp).mono hrows, h.confirmed, fun report hreport => ?_⟩
  rcases h.reports report hreport with hcalm | ⟨seq, n, hreport, hlt, hle⟩
  · exact .inl hcalm
  · exact .inr ⟨seq, n, hreport, hlt, hle.trans hrows.length_le⟩

theorem Watched.fetch (h : Watched key w) (i : ℕ) :
    Watched key (w.step env key parse hex (.fetch i)) := by
  refine ⟨h.honest, fun j rows hj => ?_, h.anchored, h.confirmed, h.reports⟩
  simp only [Watch.step] at hj ⊢
  by_cases hji : j = i
  · rw [hji, Function.update_self] at hj
    obtain rfl := Option.some.inj hj
    exact List.prefix_rfl
  · rw [Function.update_of_ne hji] at hj
    exact h.fetched j rows hj

/-- The verdict where every checkpoint is within the beginning. -/
theorem beginningVerdict_of_le {checked n : ℕ} {cps : List Checkpoint}
    (h : ∀ cp ∈ cps, cp.seq ≤ n) :
    beginningVerdict checked n cps = .consistent (checked + cps.length) := by
  have hnone : cps.find? (fun cp => n < cp.seq) = none :=
    List.find?_eq_none.mpr fun cp hcp => by simpa using h cp hcp
  rw [beginningVerdict, hnone, Option.elim_none]

/-- The verdict where some checkpoint is beyond it. -/
theorem beginningVerdict_of_lt (checked : ℕ) {n : ℕ} {cps : List Checkpoint}
    (hsorted : cps.Pairwise fun a b => a.seq ≤ b.seq) (h : ∃ cp ∈ cps, n < cp.seq) :
    ∃ cp ∈ cps, n < cp.seq ∧ (∀ cp' ∈ cps, n < cp'.seq → cp.seq ≤ cp'.seq) ∧
      beginningVerdict checked n cps = .truncated cp.seq n := by
  cases hfind : cps.find? fun cp => n < cp.seq with
  | none =>
    obtain ⟨cp, hcp, hlt⟩ := h
    have hle := List.find?_eq_none.mp hfind cp hcp
    exact absurd (decide_eq_true hlt) hle
  | some cp =>
    obtain ⟨hlt, before, after, rfl, hbefore⟩ := List.find?_eq_some_iff_append.mp hfind
    refine ⟨cp, by simp, of_decide_eq_true hlt, fun cp' hcp' hlt' => ?_, ?_⟩
    · rcases List.mem_append.mp hcp' with hcp' | hcp'
      · have hle := hbefore cp' hcp'
        simp only [Bool.not_eq_true', decide_eq_false_iff_not] at hle
        exact absurd hlt' hle
      · rcases List.mem_cons.mp hcp' with rfl | hcp'
        · exact le_rfl
        · exact (List.pairwise_cons.mp (List.pairwise_append.mp hsorted).2.1).1 cp' hcp'
    · rw [beginningVerdict, hfind, Option.elim_some]

/-- An attempt adds one report, of the rows it was made on. -/
theorem Watched.anchor (hsign : ∀ m, key.verifyingKey m (key.sign m) = true)
    (hparse : parse hex = some key.verifyingKey) (h : Watched key w) (i : ℕ) (createdAt : String)
    (db : SinkAnswers) : Watched key (w.step env key parse hex (.anchor i createdAt db)) := by
  cases hi : w.fetched i with
  | none => rwa [Watch.step_anchor_of_none hi]
  | some rows =>
    rw [Watch.step_anchor_of_some hi]
    have hrows := h.fetched i rows hi
    have hgenuine : ∀ cp ∈ (anchorOnce key parse hex rows createdAt db w.anchored).2,
        CheckpointOf key w.tables.chainRows cp :=
      checkpointsOf_anchorOnce hrows h.anchored createdAt db
    have hkept := (isPrefix_anchorOnce key parse hex ⟨rows, createdAt, db⟩ w.anchored).subset
    have hattempt := anchorOnce_of_isPrefix hsign hparse h.appended hrows h.anchored createdAt db
    refine ⟨h.honest, fun j rows' hj => ?_, hgenuine, fun seq k hreport => ?_,
      fun report hreport => ?_⟩
    · dsimp only at hj ⊢
      by_cases hji : j = i
      · rw [hji, Function.update_self] at hj
        cases hj
      · rw [Function.update_of_ne hji] at hj
        exact h.fetched j rows' hj
    · rcases List.mem_append.mp hreport with hreport | hreport
      · obtain ⟨cp, hcp, hseq⟩ := h.confirmed seq k hreport
        exact ⟨cp, hkept hcp, hseq⟩
      · have hreport := List.mem_singleton.mp hreport
        rcases hattempt with ⟨e, he⟩ | hempty | ⟨tip, cp, -, rfl, hattempt⟩
        · rw [he] at hreport
          cases hreport
        · rw [hempty] at hreport
          cases hreport
        · rw [hattempt] at hreport ⊢
          refine ⟨_, List.mem_concat_self, ?_⟩
          have hok := Except.ok.inj hreport
          revert hok
          cases beginningVerdict 0 rows.length (db.order (w.anchored ++
            [key.signCheckpoint tip.seq tip.chainHash createdAt])) with
          | consistent n => exact fun hok => (AnchorOutcome.anchored.inj hok).1.symm
          | badSignature seq => exact fun hok => by cases hok
          | truncated seq n => exact fun hok => by cases hok
          | tipMismatch seq anchored actual => exact fun hok => by cases hok
          | cannotVerify reason => exact fun hok => by cases hok
    · rcases List.mem_append.mp hreport with hreport | hreport
      · exact h.reports report hreport
      · rw [List.mem_singleton.mp hreport]
        rcases hattempt with ⟨e, he⟩ | hempty | ⟨tip, cp, -, -, hattempt⟩
        · rw [he]
          exact .inl trivial
        · rw [hempty]
          exact .inl trivial
        · rw [hattempt] at hgenuine ⊢
          by_cases hwithin : ∀ cp' ∈ db.order (w.anchored ++ [cp]), cp'.seq ≤ rows.length
          · rw [beginningVerdict_of_le hwithin]
            exact .inl trivial
          · simp only [not_forall, not_le, exists_prop] at hwithin
            obtain ⟨cp', hcp', hlt, -, hverdict⟩ :=
              beginningVerdict_of_lt 0 (db.order_sorted _) hwithin
            rw [hverdict]
            refine .inr ⟨cp'.seq, rows.length, rfl, hlt, ?_⟩
            exact (hgenuine cp' ((db.order_perm _).mem_iff.mp hcp')).seq_le h.appended

theorem Watched.run (hkey : env.auditKey = some key)
    (hsign : ∀ m, key.verifyingKey m (key.sign m) = true)
    (hparse : parse hex = some key.verifyingKey) (h : Watched key w) (steps : List WatchStep) :
    Watched key (w.run env key parse hex steps) := by
  induction steps generalizing w with
  | nil => exact h
  | cons step steps ih =>
    refine ih ?_
    cases step with
    | operation clock op => exact h.operation hkey clock op
    | fetch i => exact h.fetch i
    | anchor i createdAt db => exact h.anchor hsign hparse i createdAt db

/-! ### One task -/

/-- Only one anchorer fetches, and what it holds covers every checkpoint. -/
structure Watch.Alone (i : ℕ) (w : Watch) : Prop where
  only : ∀ j rows, w.fetched j = some rows → j = i
  covers : ∀ rows, w.fetched i = some rows → ∀ cp ∈ w.anchored, cp.seq ≤ rows.length
  reports : ∀ report ∈ w.reports, Unalarming report

theorem Watch.Alone.fetch {i : ℕ} (halone : w.Alone i) (h : Watched key w) :
    (w.step env key parse hex (.fetch i)).Alone i := by
  refine ⟨fun j rows hj => ?_, fun rows hrows cp hcp => ?_, halone.reports⟩
  · by_contra hji
    simp only [Watch.step, Function.update_of_ne hji] at hj
    exact hji (halone.only j rows hj)
  · simp only [Watch.step, Function.update_self, Option.some.injEq] at hrows
    rw [← hrows]
    exact (h.anchored cp hcp).seq_le h.appended

/-- Where nobody else anchors, the rows are compared with checkpoints of themselves. -/
theorem Watch.Alone.anchor {i : ℕ} (hsign : ∀ m, key.verifyingKey m (key.sign m) = true)
    (hparse : parse hex = some key.verifyingKey) (halone : w.Alone i) (h : Watched key w) (j : ℕ)
    (createdAt : String) (db : SinkAnswers) :
    (w.step env key parse hex (.anchor j createdAt db)).Alone i := by
  cases hj : w.fetched j with
  | none => rwa [Watch.step_anchor_of_none hj]
  | some rows =>
    rw [Watch.step_anchor_of_some hj]
    obtain rfl := halone.only j rows hj
    have hrows := h.fetched j rows hj
    refine ⟨fun k rows' hk => ?_, fun rows' hk => ?_, fun report hreport => ?_⟩
    · by_contra hkj
      simp only [Function.update_of_ne hkj] at hk
      exact hkj (halone.only k rows' hk)
    · simp only [Function.update_self] at hk
      cases hk
    · rcases List.mem_append.mp hreport with hreport | hreport
      · exact halone.reports report hreport
      · rw [List.mem_singleton.mp hreport]
        rcases anchorOnce_of_isPrefix hsign hparse h.appended hrows h.anchored createdAt db with
          ⟨e, he⟩ | hempty | ⟨tip, cp, htip, rfl, hattempt⟩
        · rw [he]
          exact trivial
        · rw [hempty]
          exact trivial
        · have hlast := lastSeq_of_appended (appended_of_isPrefix h.appended hrows)
          rw [htip, Option.map_some, Option.getD_some] at hlast
          have hwithin : ∀ cp ∈ db.order (w.anchored ++
              [key.signCheckpoint tip.seq tip.chainHash createdAt]), cp.seq ≤ rows.length := by
            intro cp hcp
            rw [(db.order_perm _).mem_iff] at hcp
            rcases List.mem_append.mp hcp with hcp | hcp
            · exact halone.covers rows hj cp hcp
            · rw [List.mem_singleton.mp hcp]
              exact hlast.le
          rw [hattempt, beginningVerdict_of_le hwithin]
          exact trivial

theorem Watch.Alone.run {i : ℕ} (hkey : env.auditKey = some key)
    (hsign : ∀ m, key.verifyingKey m (key.sign m) = true)
    (hparse : parse hex = some key.verifyingKey) (halone : w.Alone i) (h : Watched key w)
    {steps : List WatchStep} (hsteps : ∀ j, WatchStep.fetch j ∈ steps → j = i) :
    (w.run env key parse hex steps).Alone i := by
  induction steps generalizing w with
  | nil => exact halone
  | cons step steps ih =>
    have hrest : ∀ j, WatchStep.fetch j ∈ steps → j = i := fun j hj =>
      hsteps j (List.mem_cons_of_mem _ hj)
    cases step with
    | operation clock op =>
      exact ih ⟨halone.only, halone.covers, halone.reports⟩ (h.operation hkey clock op) hrest
    | fetch j =>
      obtain rfl := hsteps j List.mem_cons_self
      exact ih (halone.fetch h) (h.fetch j) hrest
    | anchor j createdAt db =>
      exact ih (halone.anchor hsign hparse h j createdAt db) (h.anchor hsign hparse j createdAt db)
        hrest

/-! ### What anchoring is worth -/

/-- The comparison of a beginning with what is anchored. -/
theorem Watched.verifyAgainstAnchor_take (hsign : ∀ m, key.verifyingKey m (key.sign m) = true)
    (hparse : parse hex = some key.verifyingKey) (h : Watched key w) {n : ℕ}
    (hn : n ≤ w.tables.chainRows.length) {db : SinkAnswers} (hload : db.loadError = none)
    (hne : w.anchored ≠ []) :
    verifyAgainstAnchor parse hex (w.tables.chainRows.take n) db w.anchored =
      .ok (beginningVerdict 0 n (db.order w.anchored)) := by
  have hgenuine : ∀ cp ∈ db.order w.anchored, CheckpointOf key w.tables.chainRows cp :=
    fun cp hcp => h.anchored cp ((db.order_perm _).mem_iff.mp hcp)
  have hcompared := checkpointsFrom_of_checkpointsOf hsign h.appended
    (List.take_prefix n w.tables.chainRows) hgenuine 0
  rw [List.length_take_of_le hn] at hcompared
  have hloaded : (db.order w.anchored).isEmpty = false := by
    rw [List.isEmpty_eq_false_iff]
    exact fun hnil => hne (List.nil_perm.mp (hnil ▸ db.order_perm w.anchored))
  simp only [verifyAgainstAnchor, SinkAnswers.loadAll, hload]
  change (if (db.order w.anchored).isEmpty = true then _ else _) = _
  rw [hloaded, if_neg Bool.false_ne_true, verifyCheckpoints, hparse]
  exact congrArg Except.ok hcompared

end Anchoring

/-- The one public key of the sample store, under one name. -/
def plainParse (verifyingKeyHex : String) : Option VerifyingKey :=
  if verifyingKeyHex = "ab" then some plainKey.verifyingKey else none

/-- The sample operations, after which the task anchors. -/
def anchoredOps : List WatchStep :=
  sampleOps.map (fun op => WatchStep.operation op.1 op.2) ++
    [.fetch 0, .anchor 0 "2026-01-01T00:15:00Z" sampleSink]

end Sysknife.Store
