import Sysknife.Store.Lifecycle

/-!
# The status cross-check

The status column is not signed: the chain protects the decision captured at the insert, not
the course of the execution. Every status is an event as well, and `statusOutcome` compares the
column of each transaction with the newest status event chained for it. Rows without any status
event are judged by what they could still mean: history, or a contradiction.

`statusOutcome_agrees_iff` says what agreement amounts to, row by row. For the stores that the
operations reach it holds of the stored column alone (`status_rewrite_detected`).
-/

namespace Sysknife.Store

open Audit

/-! ### The comparison -/

/-- Result of the status cross-check. -/
inductive StatusOutcome
  | agrees (rowsChecked : ℕ)
  | disagrees (detail : String)
  | cannotVerify (detail : String)
  deriving DecidableEq, Repr

/-- What the cross-check reads about one transaction. -/
structure StatusEvidence where
  transactionId : String
  status : JobState
  /-- Kind of the newest status event chained for the transaction. -/
  newestStatusEvent : Option String
  approvalConsumed : Bool
  /-- The row was written before its store chained status events. -/
  predatesStatusEvents : Bool
  deriving DecidableEq, Repr

/-- Rendering of a status in a diagnostic. -/
def debugStatus : JobState → String
  | .queued => "Queued"
  | .running => "Running"
  | .succeeded => "Succeeded"
  | .failed => "Failed"
  | .canceled => "Canceled"
  | .rolledBack => "RolledBack"
  | .needsReboot => "NeedsReboot"

/-- What one row adds to the verdict. -/
inductive StatusFinding
  | fine
  | disagreement (detail : String)
  | unproven (detail : String)
  deriving DecidableEq, Repr

/-- The body of the loop of `statusOutcome`. -/
def StatusEvidence.finding (row : StatusEvidence) : StatusFinding :=
  let id := row.transactionId
  let state := row.status
  match row.newestStatusEvent with
  | none =>
    if state = .queued ∧ row.approvalConsumed then
      .disagreement (id ++ ": status is Queued but a chained approval_consumed event proves " ++
        "it left Queued")
    else if state = .running ∨ state = .canceled then
      .unproven (id ++ ": status is " ++ debugStatus state ++ " and no status event was ever " ++
        "chained; historical writes cannot establish the execution outcome")
    else if state ≠ .queued ∧ row.predatesStatusEvents then
      .unproven (id ++ ": status is " ++ debugStatus state ++ " on a row written before this " ++
        "store chained status events; nothing signed records its outcome")
    else if state ≠ .queued then
      .disagreement (id ++ ": status is " ++ debugStatus state ++ " but no status event was " ++
        "ever chained; terminal outcomes require a signed status event")
    else .fine
  | some newest =>
    let expected := (AuditEventKind.ofJobState state).asStr
    if newest ≠ expected then
      .disagreement (id ++ ": status column says " ++ debugStatus state ++ " (" ++ expected ++
        ") and the newest chained status event is " ++ newest)
    else .fine

/-- The loop of `statusOutcome`, with its three running variables. -/
def statusFrom (disagreements unproven : List String) (checked : ℕ) :
    List StatusEvidence → StatusOutcome
  | [] =>
    if disagreements ≠ [] then .disagrees (String.intercalate "; " disagreements)
    else if unproven ≠ [] then .cannotVerify (String.intercalate "; " unproven)
    else .agrees checked
  | row :: rows =>
    match row.finding with
    | .fine => statusFrom disagreements unproven (checked + 1) rows
    | .disagreement detail => statusFrom (disagreements ++ [detail]) unproven (checked + 1) rows
    | .unproven detail => statusFrom disagreements (unproven ++ [detail]) (checked + 1) rows

/-- Compare each row's status with its newest status event. -/
def statusOutcome (rows : List StatusEvidence) : StatusOutcome := statusFrom [] [] 0 rows

/-- `kind LIKE 'status_%'`: in SQLite the underscore stands for any character, and letters match
in either case. -/
def likeStatus (kind : String) : Bool :=
  ((kind.toList.take 6).map Char.toLower == "status".toList) && decide (7 ≤ kind.toList.length)

/-- Kind of the newest status event of a transaction. -/
def Tables.newestStatusEvent (s : Tables) (t : String) : Option String :=
  ((s.events.filter fun e => e.transactionId == t && likeStatus e.kind).map EventRow.kind).getLast?

/-- Is there an `approval_consumed` event of the transaction? -/
def Tables.approvalConsumed (s : Tables) (t : String) : Bool :=
  s.events.any fun e => e.transactionId == t && e.kind == "approval_consumed"

/-- What the cross-check of the store reads about a transaction whose column says `status`. -/
def Tables.evidence (s : Tables) (t : String) (status : JobState) : StatusEvidence :=
  ⟨t, status, s.newestStatusEvent t, s.approvalConsumed t, false⟩

/-- Read one row whose status column is `column`; text that spells no status is an error. -/
def Tables.readEvidence (s : Tables) (column : TransactionRow → Option JobState)
    (r : TransactionRow) : Except StoreError StatusEvidence :=
  match column r with
  | none => .error (.json "the status column spells no job state")
  | some status => .ok (s.evidence r.transactionId status)

/-- The cross-check of a store whose status column reads as `column`. -/
def statusMatchesChainOf (column : TransactionRow → Option JobState) (s : Tables) :
    Except StoreError StatusOutcome := do
  let evidence ← s.transactions.mapM (s.readEvidence column)
  .ok (statusOutcome evidence)

/-- The status cross-check of the store. -/
def statusMatchesChain (s : Tables) : Except StoreError StatusOutcome :=
  statusMatchesChainOf (fun r => some r.status) s

/-! ### What agreement means -/

/-- The status is the one the newest status event names; without one, it is `Queued` and no
approval was spent. -/
def StatusEvidence.Sound (row : StatusEvidence) : Prop :=
  match row.newestStatusEvent with
  | none => row.status = .queued ∧ row.approvalConsumed = false
  | some newest => newest = (AuditEventKind.ofJobState row.status).asStr

theorem StatusEvidence.finding_eq_fine_iff {row : StatusEvidence} :
    row.finding = .fine ↔ row.Sound := by
  unfold StatusEvidence.finding StatusEvidence.Sound
  cases row.newestStatusEvent with
  | none =>
    cases row.status <;> cases row.approvalConsumed <;> cases row.predatesStatusEvents <;> simp
  | some newest =>
    simp only
    split_ifs with h
    · simpa using h
    · simpa using not_not.mp h

private theorem statusFrom_agrees_iff {ds us : List String} {k n : ℕ}
    {rows : List StatusEvidence} : statusFrom ds us k rows = .agrees n ↔
      ds = [] ∧ us = [] ∧ n = k + rows.length ∧ ∀ row ∈ rows, row.Sound := by
  induction rows generalizing ds us k with
  | nil =>
    simp only [statusFrom]
    split_ifs with hds hus
    · simp [hds]
    · simp [hus]
    · simp [not_not.mp hds, not_not.mp hus, eq_comm]
  | cons row rows ih =>
    have hlength : k + (row :: rows).length = k + 1 + rows.length := by
      rw [List.length_cons]
      omega
    simp only [statusFrom, List.forall_mem_cons, ← StatusEvidence.finding_eq_fine_iff, hlength]
    cases row.finding with
    | fine => simp [ih, StatusEvidence.finding_eq_fine_iff]
    | disagreement detail => simp [ih]
    | unproven detail => simp [ih]

/-- **Agreement is row by row**, and the flag for old rows has no part in it. -/
theorem statusOutcome_agrees_iff {rows : List StatusEvidence} {n : ℕ} :
    statusOutcome rows = .agrees n ↔ n = rows.length ∧ ∀ row ∈ rows, row.Sound := by
  rw [statusOutcome, statusFrom_agrees_iff]
  simp

/-- Collecting from a list succeeds with good items exactly when each item is good. -/
theorem exists_mapM_ok_iff {α β ε : Type} {f : α → Except ε β} {P : β → Prop} {xs : List α}
    {n : ℕ} : (∃ ys, xs.mapM f = .ok ys ∧ n = ys.length ∧ ∀ y ∈ ys, P y) ↔
      n = xs.length ∧ ∀ x ∈ xs, ∃ y, f x = .ok y ∧ P y := by
  induction xs generalizing n with
  | nil => simp [pure, Except.pure]
  | cons x xs ih =>
    rw [List.forall_mem_cons, List.mapM_cons]
    constructor
    · rintro ⟨ys, h, rfl, hys⟩
      obtain ⟨y, hy, h⟩ := exists_of_bind_eq_ok h
      obtain ⟨ys', hys', h⟩ := exists_of_bind_eq_ok h
      obtain rfl := Except.ok.inj h
      rw [List.forall_mem_cons] at hys
      obtain ⟨hlength, hrest⟩ := ih.mp ⟨ys', hys', rfl, hys.2⟩
      exact ⟨by rw [List.length_cons, List.length_cons, hlength], ⟨y, hy, hys.1⟩, hrest⟩
    · rintro ⟨rfl, ⟨y, hy, hPy⟩, hrest⟩
      obtain ⟨ys, hys, hlength, hPys⟩ := ih.mpr ⟨rfl, hrest⟩
      refine ⟨y :: ys, ?_, ?_, List.forall_mem_cons.mpr ⟨hPy, hPys⟩⟩
      · rw [hy, hys]
        rfl
      · rw [List.length_cons, List.length_cons, hlength]

theorem statusMatchesChainOf_agrees_iff {column : TransactionRow → Option JobState} {s : Tables}
    {n : ℕ} : statusMatchesChainOf column s = .ok (.agrees n) ↔
      n = s.transactions.length ∧ ∀ r ∈ s.transactions,
        ∃ status, column r = some status ∧ (s.evidence r.transactionId status).Sound := by
  have hrow (r : TransactionRow) : (∃ e, s.readEvidence column r = .ok e ∧ e.Sound) ↔
      ∃ status, column r = some status ∧ (s.evidence r.transactionId status).Sound := by
    unfold Tables.readEvidence
    cases column r <;> simp
  simp only [← hrow]
  rw [← exists_mapM_ok_iff]
  constructor
  · intro h
    obtain ⟨evidence, hevidence, h⟩ := exists_of_bind_eq_ok h
    exact ⟨evidence, hevidence, statusOutcome_agrees_iff.mp (Except.ok.inj h)⟩
  · rintro ⟨evidence, hevidence, hsound⟩
    have hagrees := statusOutcome_agrees_iff.mpr hsound
    rw [statusMatchesChainOf, hevidence]
    exact congrArg Except.ok hagrees

/-! ### The evidence of a history -/

theorem likeStatus_asStr (k : AuditEventKind) : likeStatus k.asStr = isStatus k := by
  cases k <;> decide

theorem newestStatusEvent_eq (s : Tables) (t : String) :
    s.newestStatusEvent t = ((s.historyOf t).filter likeStatus).getLast? := by
  rw [Tables.newestStatusEvent, Tables.historyOf, List.filter_map, List.filter_filter]
  congr 3
  funext e
  simp [Bool.and_comm]

theorem approvalConsumed_eq (s : Tables) (t : String) :
    s.approvalConsumed t = decide ("approval_consumed" ∈ s.historyOf t) := by
  rw [Bool.eq_iff_iff, decide_eq_true_iff]
  simp only [Tables.approvalConsumed, Tables.historyOf, List.any_eq_true, Bool.and_eq_true,
    beq_iff_eq, List.mem_map, List.mem_filter]
  constructor
  · rintro ⟨e, he, ht, hkind⟩
    exact ⟨e, ⟨he, ht⟩, hkind⟩
  · rintro ⟨e, ⟨he, ht⟩, hkind⟩
    exact ⟨e, he, ht, hkind⟩

/-- The history of a life supports its status and no other. -/
theorem sound_evidence_iff {s : Tables} {t : String} {st status : JobState} (hs : LivesAt s t)
    (hst : s.statusOf t = some st) : (s.evidence t status).Sound ↔ status = st := by
  obtain ⟨h, hhistory, hrun⟩ := livesAt_of_status hs hst
  have hnewest : s.newestStatusEvent t =
      if st = .queued then none else some (AuditEventKind.ofJobState st).asStr := by
    rw [newestStatusEvent_eq, hhistory, List.filter_map, List.getLast?_map]
    have hfilter : h.filter (likeStatus ∘ AuditEventKind.asStr) = h.filter isStatus := by
      congr 1
      funext k
      exact likeStatus_asStr k
    rw [hfilter, hrun.newest_status]
    split_ifs <;> rfl
  by_cases hqueued : st = .queued
  · have hconsumed : s.approvalConsumed t = false := by
      rw [approvalConsumed_eq, decide_eq_false_iff_not, hhistory]
      intro hmem
      obtain ⟨k, hk, hspelling⟩ := List.mem_map.mp hmem
      obtain rfl : k = .approvalConsumed := AuditEventKind.asStr_injective hspelling
      exact hrun.not_spent_of_queued hqueued hk
    simp [StatusEvidence.Sound, Tables.evidence, hnewest, hqueued, hconsumed]
  · simp only [StatusEvidence.Sound, Tables.evidence, hnewest, if_neg hqueued]
    constructor
    · intro h
      have hkinds := AuditEventKind.asStr_injective h
      cases st <;> cases status <;> first | rfl | exact absurd hkinds (by decide)
    · rintro rfl
      rfl

/-! ### Tampering with the column -/

theorem statusOf_of_mem {s : Tables} (hs : s.Keyed) {r : TransactionRow}
    (hr : r ∈ s.transactions) : s.statusOf r.transactionId = some r.status := by
  have hfind : s.findTransaction r.transactionId = some r :=
    Table.lookup_of_mem hs.transactions hr rfl
  rw [Tables.statusOf, hfind, Option.map_some]

/-- The evidence without the flag for old rows. -/
def StatusEvidence.unflagged (row : StatusEvidence) : StatusEvidence :=
  { row with predatesStatusEvents := false }

theorem StatusEvidence.sound_unflagged {row : StatusEvidence} :
    row.unflagged.Sound ↔ row.Sound := Iff.rfl

/-- **Rewriting a status is detected.** In every store reached by the operations, a status
column that differs from the stored one in any transaction, in whatever others besides, never
agrees with the chain; and for any evidence, no setting of the flags for old rows turns another
outcome into agreement. -/
theorem status_rewrite_detected (env : StoreEnv) (ops : List (Clock × StoreOp)) :
    (∀ (column : TransactionRow → Option JobState),
      (∃ r ∈ (run env ops).transactions, column r ≠ some r.status) →
        ∀ n, statusMatchesChainOf column (run env ops) ≠ .ok (.agrees n)) ∧
    (∀ (rows rows' : List StatusEvidence),
      rows'.map StatusEvidence.unflagged = rows.map StatusEvidence.unflagged →
        ∀ n, statusOutcome rows' = .agrees n → statusOutcome rows = .agrees n) := by
  constructor
  · rintro column ⟨r, hr, hne⟩ n hagrees
    have hlives := lives_run env ops
    obtain ⟨status, hcolumn, hsound⟩ := (statusMatchesChainOf_agrees_iff.mp hagrees).2 r hr
    have hstatus := statusOf_of_mem hlives.keyed hr
    rw [sound_evidence_iff (hlives.lives r.transactionId) hstatus] at hsound
    exact hne (hsound ▸ hcolumn)
  · intro rows rows' hflags n hagrees
    have hsound (rows : List StatusEvidence) : (∀ row ∈ rows, row.Sound) ↔
        ∀ row ∈ rows.map StatusEvidence.unflagged, row.Sound := by
      simp [StatusEvidence.sound_unflagged]
    have hlength : rows'.length = rows.length := by
      simpa using congrArg List.length hflags
    rw [statusOutcome_agrees_iff, hsound, hflags, ← hsound, hlength] at hagrees
    exact statusOutcome_agrees_iff.mpr hagrees

/-- In the sample run, writing `Succeeded` over `Running` is detected, while the stored column
agrees. -/
theorem sampleOps_rewrite_detected :
    statusMatchesChain (run sampleEnv sampleOps) = .ok (.agrees 1) ∧
      ∀ n, statusMatchesChainOf (fun _ => some .succeeded) (run sampleEnv sampleOps) ≠
        .ok (.agrees n) := by
  have hagrees : statusMatchesChain (run sampleEnv sampleOps) = .ok (.agrees 1) := by
    decide +kernel
  have hrewritten : ∃ r ∈ (run sampleEnv sampleOps).transactions,
      some JobState.succeeded ≠ some r.status := by
    decide +kernel
  exact ⟨hagrees, (status_rewrite_detected sampleEnv sampleOps).1 _ hrewritten⟩

end Sysknife.Store
