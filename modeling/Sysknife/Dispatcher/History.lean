import Sysknife.Actions.Catalogue
import Sysknife.Dispatcher.Exclusive

/-!
# The history of jobs

The history of jobs is asked for in two ways: as a typed request (`handleQueryHistory`), and as
the action `ListJobHistory` with a JSON object of parameters (`listJobHistory`), which the
dispatcher answers from its own store. Both run the same filter over the same rows
(`buildHistoryFilter`), and list the newest rows that match (`listed_of_listTransactions`).

The action reads its parameters member by member: a number is cast to 32 bits, and a filter that
is no text is passed over. **Its answer is the one to the typed request with the values of the
parameters exactly when every number fits in 32 bits and every filter is a text or null**
(`listJobHistory_agrees_iff`).
-/

namespace Sysknife.Dispatcher

open Store

/-- `DEFAULT_HISTORY_LIMIT` -/
def defaultHistoryLimit : UInt32 := 20

/-- The columns of `transactions` that the history queries read, as they are stored. -/
structure HistoryRow where
  seq : ℤ
  transactionId : String
  requestId : String
  requestHash : String
  actionName : String
  riskLevel : String
  status : String
  approvalId : Option String
  summary : String
  warningsJson : String
  createdAt : String

/-- One row of the structured history. -/
structure JobHistoryEntry where
  transactionId : String
  actionName : String
  riskLevel : RiskLevel
  status : JobState
  summary : String
  createdAt : String
  deriving DecidableEq, Repr

/-- Lower bound on `created_at`: so many hours before the query, or an instant. -/
inductive HistorySince (δ : Type)
  | hours (n : UInt32)
  | cutoff (instant : δ)

/-- What the history queries take from libraries: `serde_json` on the columns, the reading of an
RFC 3339 instant, and the two comparisons of `created_at` that the database makes at the time of
the query. -/
structure HistoryEnv (δ : Type) where
  readState : String → Except String JobState
  readRisk : String → Except String RiskLevel
  readWarnings : String → Except String (List String)
  parseFromRfc3339 : String → Except String δ
  withinHours : UInt32 → String → Bool
  atOrAfter : δ → String → Bool

/-- The values of a `QueryHistory` request. -/
structure HistoryRequest where
  limit : Option UInt32
  statusFilter : Option String
  actionFilter : Option String
  sinceHours : Option UInt32
  since : Option String

section Queries

variable {δ : Type} (env : HistoryEnv δ) (rows : List HistoryRow)

/-! ### The store -/

/-- A value that is stored as JSON text. -/
def deserializeField {α : Type} (read : String → Except String α) (value : String) :
    Except StoreError α := (read value).mapError .json

/-- A job state as it is stored. -/
def serializeState (s : JobState) : String := "\"" ++ jobStateStr s ++ "\""

/-- The conditions and the limit of a history query. -/
structure HistoryFilter (δ : Type) where
  status : Option String
  action : Option String
  since : Option (HistorySince δ)
  limit : ℕ

/-- Is the row not older than the bound? -/
def HistorySince.admits : HistorySince δ → HistoryRow → Bool
  | .hours n, row => env.withinHours n row.createdAt
  | .cutoff instant, row => env.atOrAfter instant row.createdAt

/-- The `WHERE` clause. -/
def HistoryFilter.matches (f : HistoryFilter δ) (row : HistoryRow) : Bool :=
  f.status.all (row.status == ·) && f.action.all (row.actionName == ·) &&
    f.since.all (·.admits env row)

/-- A status to filter by has to be the name of one, so that a slip of the pen is an error and
not an empty history. -/
def validatedStatus : Option String → Except StoreError (Option String)
  | some status => do
    let validated ← deserializeField env.readState ("\"" ++ status ++ "\"")
    return some (serializeState validated)
  | none => .ok none

def buildHistoryFilter (limit : UInt32) (statusFilter actionFilter : Option String)
    (since : Option (HistorySince δ)) : Except StoreError (HistoryFilter δ) := do
  let status ← validatedStatus env statusFilter
  return ⟨status, actionFilter, since, min limit.toNat 100⟩

/-- `SELECT … ORDER BY seq DESC LIMIT ?` -/
def HistoryFilter.select (f : HistoryFilter δ) : List HistoryRow :=
  Table.selectNewest (f.matches env) HistoryRow.seq f.limit rows

def rowToRecord (row : HistoryRow) : Except StoreError TransactionRecord := do
  let riskLevel ← deserializeField env.readRisk row.riskLevel
  let status ← deserializeField env.readState row.status
  let warnings ← deserializeField env.readWarnings row.warningsJson
  return ⟨row.transactionId, row.requestId, row.requestHash, row.actionName, riskLevel, status,
    row.approvalId, row.summary, warnings⟩

def rowToEntry (row : HistoryRow) : Except StoreError JobHistoryEntry := do
  let riskLevel ← deserializeField env.readRisk row.riskLevel
  let status ← deserializeField env.readState row.status
  return ⟨row.transactionId, row.actionName, riskLevel, status, row.summary, row.createdAt⟩

def listTransactions (limit : UInt32) (statusFilter actionFilter : Option String)
    (since : Option (HistorySince δ)) : Except StoreError (List TransactionRecord) := do
  let filter ← buildHistoryFilter env limit statusFilter actionFilter since
  (filter.select env rows).mapM (rowToRecord env)

def listHistory (limit : UInt32) (statusFilter actionFilter : Option String)
    (since : Option (HistorySince δ)) : Except StoreError (List JobHistoryEntry) := do
  let filter ← buildHistoryFilter env limit statusFilter actionFilter since
  (filter.select env rows).mapM (rowToEntry env)

/-! ### The typed request -/

def resolveHistorySince (sinceHours : Option UInt32) (since : Option String) :
    Except String (Option (HistorySince δ)) :=
  match sinceHours, since with
  | some _, some _ => .error "'since' and 'since_hours' are mutually exclusive"
  | some hours, none => .ok (some (.hours hours))
  | none, some raw =>
    match env.parseFromRfc3339 raw with
    | .ok instant => .ok (some (.cutoff instant))
    | .error e =>
      .error ("'since' must be an RFC 3339 datetime, got " ++ Audit.debugStr raw ++ ": " ++ e)
  | none, none => .ok none

def validationFailure (message : String) : Refusal := ⟨"validation_failure", message⟩

/-- The policy gate of the typed request. -/
def historyGate (d : Daemon) : Except Refusal Unit :=
  match d.policy.minRoleForAction "ListJobHistory" with
  | some .observer => .ok ()
  | some _ => .error ⟨"authorization_failure",
      "history has been restricted above read-only by policy; " ++
      "it is not available over the structured query path"⟩
  | none => .error (validationFailure "ListJobHistory action is not registered")

def handleQueryHistory (d : Daemon) (r : HistoryRequest) :
    Except Refusal (List JobHistoryEntry) := do
  historyGate d
  let since ← (resolveHistorySince env r.sinceHours r.since).mapError validationFailure
  (listHistory env rows (r.limit.getD defaultHistoryLimit) r.statusFilter r.actionFilter
    since).mapError fun e =>
      ⟨"execution_failure", "failed to query transaction history: " ++ e.message⟩

/-! ### The action -/

/-- A number among the parameters, cast to 32 bits. -/
def castU32 (params : Value) (key : String) : Except Refusal (Option UInt32) :=
  match params.get key with
  | some v =>
    match v.asU64 with
    | some n => .ok (some (UInt32.ofNat n))
    | none => .error (validationFailure
        ("'" ++ key ++ "' must be an integer, got: " ++ v.canonicalJson))
  | none => .ok none

/-- A text among the parameters; anything else is passed over. -/
def textOrNone (params : Value) (key : String) : Option String := (params.get key).bind Value.asStr

def readSinceCutoff (params : Value) : Except Refusal (Option String) :=
  match params.get "since" with
  | some v =>
    match v.asStr with
    | some s => .ok (some s)
    | none => .error (validationFailure
        ("'since' must be an RFC 3339 datetime string, got: " ++ v.canonicalJson))
  | none => .ok none

/-- The values the action reads from its parameters. -/
def readJobHistoryParams (c : Catalogue) (params : Value) : Except Refusal HistoryRequest := do
  (c.validateActionParams "ListJobHistory" params).mapError fun e => validationFailure e.message
  let limit ← castU32 params "limit"
  let statusFilter := textOrNone params "status_filter"
  let actionFilter := textOrNone params "action_filter"
  let sinceHours ← castU32 params "since_hours"
  let since ← readSinceCutoff params
  return ⟨limit, statusFilter, actionFilter, sinceHours, since⟩

/-- Actions that any caller may ask for and that change the host. -/
def observerMutatingActions : List String := ["AptUpdate"]

/-- The gates of `handle_query_action`: the action is read-only, and runs on the host. -/
def queryActionGates (d : Daemon) (actionName : String) : Except Refusal Unit :=
  match d.policy.minRoleForAction actionName with
  | none => .error (validationFailure ("unknown action: " ++ actionName))
  | some .observer =>
    if actionName ∈ observerMutatingActions then
      .error ⟨"authorization_failure",
        actionName ++ " mutates the host and is not available through query_action; " ++
        "use preview+execute instead"⟩
    else (d.validateActionPlatform actionName).mapError fun m => ⟨"unsupported_platform", m⟩
  | some _ => .error ⟨"authorization_failure",
      actionName ++ " is not a read-only action; use preview+execute instead"⟩

/-- The action `ListJobHistory`: the values it read, and the transactions it lists. -/
def listJobHistory (d : Daemon) (c : Catalogue) (params : Value) :
    Except Refusal (HistoryRequest × List TransactionRecord) := do
  queryActionGates d "ListJobHistory"
  let r ← readJobHistoryParams c params
  let since ← (resolveHistorySince env r.sinceHours r.since).mapError validationFailure
  let records ← (listTransactions env rows (r.limit.getD defaultHistoryLimit) r.statusFilter
    r.actionFilter since).mapError fun e =>
      ⟨"execution_failure", "failed to query transaction log: " ++ e.message⟩
  return (r, records)

/-- A field of a table, padded with blanks on the right. -/
def column (width : ℕ) (text : String) : String :=
  text ++ String.ofList (List.replicate (width - text.length) ' ')

def formatJobHistory (records : List TransactionRecord) : String :=
  if records.isEmpty then "No transactions found."
  else
    "Transaction history (" ++ toString records.length ++ " entries):\n\n" ++
      String.join (records.map fun r =>
        "  " ++ String.ofList (r.transactionId.toList.take 8) ++ "  " ++ column 30 r.actionName ++
          "  " ++ column 12 r.status.debug.toLower ++ "  " ++ r.summary ++ "\n")

/-- The output of the action. -/
def jobHistoryOutput (r : HistoryRequest) (records : List TransactionRecord) : String :=
  if records.isEmpty then
    let filters := (r.statusFilter.map ("status=" ++ ·)).toList ++
      (r.actionFilter.map ("action=" ++ ·)).toList ++
      (r.sinceHours.map fun h => "since_hours=" ++ toString h.toNat).toList ++
      (r.since.map ("since=" ++ ·)).toList
    "No transactions found" ++
      (if filters.isEmpty then "" else " (filters: " ++ String.intercalate ", " filters ++ ")") ++
      "."
  else formatJobHistory records

/-- The action as it is answered. -/
def listJobHistoryReply (d : Daemon) (c : Catalogue) (params : Value) : Except Refusal String := do
  let (r, records) ← listJobHistory env rows d c params
  return jobHistoryOutput r records

end Queries

/-! ### What the two ways have in common -/

section Agreement

variable {δ : Type} {env : HistoryEnv δ} {rows : List HistoryRow}

/-- A row that the request asks for. -/
structure HistoryRequest.Matches (env : HistoryEnv δ) (r : HistoryRequest) (row : HistoryRow) :
    Prop where
  status : ∀ name ∈ r.statusFilter, ∃ s, env.readState ("\"" ++ name ++ "\"") = .ok s ∧
    row.status = serializeState s
  action : ∀ name ∈ r.actionFilter, row.actionName = name
  sinceHours : ∀ hours ∈ r.sinceHours, env.withinHours hours row.createdAt = true
  since : ∀ raw ∈ r.since, ∃ instant, env.parseFromRfc3339 raw = .ok instant ∧
    env.atOrAfter instant row.createdAt = true

/-- The rows that the request is to be answered with, newest first. -/
def HistoryRequest.Selects (env : HistoryEnv δ) (r : HistoryRequest)
    (rows listed : List HistoryRow) : Prop :=
  ∃ p : HistoryRow → Bool, (∀ row, p row = true ↔ r.Matches env row) ∧
    Table.IsNewest HistoryRow.seq (min (r.limit.getD defaultHistoryLimit).toNat 100) (rows.filter p)
      listed

theorem mapError_eq_ok_iff {ε ε' α : Type} {f : ε → ε'} {x : Except ε α} {a : α} :
    x.mapError f = .ok a ↔ x = .ok a := by
  cases x <;> simp [Except.mapError]

theorem rowToEntry_of_rowToRecord {row : HistoryRow} {record : TransactionRecord}
    (h : rowToRecord env row = .ok record) : ∃ entry, rowToEntry env row = .ok entry := by
  obtain ⟨riskLevel, hrisk, h⟩ := exists_of_bind_eq_ok h
  obtain ⟨status, hstatus, -⟩ := exists_of_bind_eq_ok h
  rw [rowToEntry, hrisk, ok_bind, hstatus]
  exact ⟨_, rfl⟩

/-- Rows that can all be read in full can all be read as entries. -/
theorem exists_mapM_rowToEntry {listed : List HistoryRow} {records : List TransactionRecord}
    (h : listed.mapM (rowToRecord env) = .ok records) :
    ∃ entries, listed.mapM (rowToEntry env) = .ok entries := by
  induction listed generalizing records with
  | nil => exact ⟨[], rfl⟩
  | cons row listed ih =>
    rw [List.mapM_cons] at h
    obtain ⟨record, hrow, h⟩ := exists_of_bind_eq_ok h
    obtain ⟨records', hrest, -⟩ := exists_of_bind_eq_ok h
    obtain ⟨entry, hentry⟩ := rowToEntry_of_rowToRecord hrow
    obtain ⟨entries, hentries⟩ := ih hrest
    rw [List.mapM_cons, hentry, ok_bind, hentries]
    exact ⟨_, rfl⟩

theorem validatedStatus_all {name : Option String} {status : Option String} (row : HistoryRow)
    (h : validatedStatus env name = .ok status) : status.all (row.status == ·) = true ↔
      ∀ n ∈ name, ∃ s, env.readState ("\"" ++ n ++ "\"") = .ok s ∧
        row.status = serializeState s := by
  cases name with
  | none =>
    obtain rfl := Except.ok.inj h
    simp
  | some n =>
    obtain ⟨s, hs, h⟩ := exists_of_bind_eq_ok h
    obtain rfl := Except.ok.inj h
    have hread := mapError_eq_ok_iff.mp hs
    simp [hread]

theorem resolveHistorySince_all {hours : Option UInt32} {raw : Option String}
    {since : Option (HistorySince δ)} (row : HistoryRow)
    (h : resolveHistorySince env hours raw = .ok since) : since.all (·.admits env row) = true ↔
      (∀ n ∈ hours, env.withinHours n row.createdAt = true) ∧
      ∀ text ∈ raw, ∃ instant, env.parseFromRfc3339 text = .ok instant ∧
        env.atOrAfter instant row.createdAt = true := by
  cases hours with
  | none =>
    cases raw with
    | none =>
      obtain rfl := Except.ok.inj h
      simp
    | some text =>
      rw [resolveHistorySince] at h
      cases hparse : env.parseFromRfc3339 text with
      | error e =>
        rw [hparse] at h
        cases h
      | ok instant =>
        rw [hparse] at h
        obtain rfl := Except.ok.inj h
        simp [HistorySince.admits, hparse]
  | some n =>
    cases raw with
    | none =>
      obtain rfl := Except.ok.inj h
      simp [HistorySince.admits]
    | some text => cases h

/-- The filter matches what the request asks for. -/
theorem matches_iff {r : HistoryRequest} {since : Option (HistorySince δ)} {f : HistoryFilter δ}
    {limit : UInt32} (hsince : resolveHistorySince env r.sinceHours r.since = .ok since)
    (h : buildHistoryFilter env limit r.statusFilter r.actionFilter since = .ok f)
    (row : HistoryRow) : f.matches env row = true ↔ r.Matches env row := by
  obtain ⟨status, hstatus, h⟩ := exists_of_bind_eq_ok h
  obtain rfl := Except.ok.inj h
  have haction : r.actionFilter.all (row.actionName == ·) = true ↔
      ∀ name ∈ r.actionFilter, row.actionName = name := by
    cases r.actionFilter <;> simp
  rw [HistoryFilter.matches, Bool.and_eq_true, Bool.and_eq_true, validatedStatus_all row hstatus,
    haction, resolveHistorySince_all row hsince]
  constructor
  · rintro ⟨⟨hs, ha⟩, hh, hc⟩
    exact ⟨hs, ha, hh, hc⟩
  · rintro ⟨hs, ha, hh, hc⟩
    exact ⟨⟨hs, ha⟩, hh, hc⟩

/-- **What is listed**: both queries list the newest rows that the request asks for. -/
theorem listed_of_listTransactions {r : HistoryRequest} {since : Option (HistorySince δ)}
    {records : List TransactionRecord}
    (hsince : resolveHistorySince env r.sinceHours r.since = .ok since)
    (h : listTransactions env rows (r.limit.getD defaultHistoryLimit) r.statusFilter r.actionFilter
      since = .ok records) :
    ∃ listed entries, r.Selects env rows listed ∧ listed.mapM (rowToRecord env) = .ok records ∧
      listed.mapM (rowToEntry env) = .ok entries ∧
      listHistory env rows (r.limit.getD defaultHistoryLimit) r.statusFilter r.actionFilter since =
        .ok entries := by
  obtain ⟨f, hf, hrecords⟩ := exists_of_bind_eq_ok h
  obtain ⟨entries, hentries⟩ := exists_mapM_rowToEntry hrecords
  have hmatches := matches_iff hsince hf
  obtain ⟨status, -, hlimit⟩ := exists_of_bind_eq_ok hf
  obtain rfl := Except.ok.inj hlimit
  refine ⟨_, entries, ⟨_, hmatches, Table.isNewest_selectNewest _ _ _ _⟩, hrecords, hentries, ?_⟩
  rw [listHistory, hf]
  exact hentries

/-! ### The values of the parameters -/

/-- A filter is given as a text, or not at all. -/
def TextGiven (member : Option Value) (text : Option String) : Prop :=
  member = text.map Value.str ∨ member = some .null ∧ text = none

/-- The parameters hold the values of a request: a number as itself, a text as itself. -/
structure Carries (params : Value) (r : HistoryRequest) : Prop where
  limit : params.get "limit" = r.limit.map fun n => .int n.toNat
  statusFilter : TextGiven (params.get "status_filter") r.statusFilter
  actionFilter : TextGiven (params.get "action_filter") r.actionFilter
  sinceHours : params.get "since_hours" = r.sinceHours.map fun n => .int n.toNat
  since : params.get "since" = r.since.map Value.str

/-- Every number that is given fits in 32 bits, and every filter that is given is a text. -/
structure FitsRequest (params : Value) : Prop where
  numbers : ∀ key ∈ ["limit", "since_hours"], ∀ v n, params.get key = some v → v.asU64 = some n →
    n < 2 ^ 32
  filters : ∀ key ∈ ["status_filter", "action_filter"], ∀ v, params.get key = some v →
    v = .null ∨ ∃ s, v = .str s

theorem eq_int_of_asU64 {v : Value} {n : ℕ} (h : v.asU64 = some n) : v = .int n := by
  cases v with
  | int i =>
    rw [Value.asU64] at h
    split_ifs at h with hi
    obtain rfl := Option.some.inj h
    exact congrArg Value.int (by omega)
  | _ => cases h

theorem asU64_int_toNat (n : UInt32) : (Value.int n.toNat).asU64 = some n.toNat := by
  have hlt := n.toNat_lt
  rw [Value.asU64, if_pos (by omega), Int.toNat_natCast]

/-- A number that fits in 32 bits is cast to itself. -/
theorem castU32_carries {params : Value} {key : String} {o : Option UInt32}
    (h : castU32 params key = .ok o)
    (hfits : ∀ v n, params.get key = some v → v.asU64 = some n → n < 2 ^ 32) :
    params.get key = o.map fun n => .int n.toNat := by
  rw [castU32] at h
  cases hget : params.get key with
  | none =>
    rw [hget] at h
    obtain rfl := Except.ok.inj h
    rfl
  | some v =>
    rw [hget] at h
    cases hv : v.asU64 with
    | none => simp [hv] at h
    | some n =>
      simp only [hv] at h
      obtain rfl := Except.ok.inj h
      have hlt := hfits v n hget hv
      have hcast : (UInt32.ofNat n).toNat = n := UInt32.toNat_ofNat_of_lt' hlt
      rw [eq_int_of_asU64 hv, Option.map_some, hcast]

theorem number_lt_of_carries {member : Option Value} {o : Option UInt32}
    (h : member = o.map fun n => .int n.toNat) {v : Value} {n : ℕ} (hv : member = some v)
    (hn : v.asU64 = some n) : n < 2 ^ 32 := by
  rw [h] at hv
  obtain ⟨m, -, rfl⟩ := Option.map_eq_some_iff.mp hv
  rw [asU64_int_toNat] at hn
  obtain rfl := Option.some.inj hn
  exact m.toNat_lt

theorem textGiven_textOrNone {params : Value} {key : String}
    (h : ∀ v, params.get key = some v → v = .null ∨ ∃ s, v = .str s) :
    TextGiven (params.get key) (textOrNone params key) := by
  rw [textOrNone]
  cases hget : params.get key with
  | none => exact .inl rfl
  | some v =>
    rcases h v hget with rfl | ⟨s, rfl⟩
    · exact .inr ⟨rfl, rfl⟩
    · exact .inl rfl

theorem text_of_textGiven {member : Option Value} {text : Option String} (h : TextGiven member text)
    {v : Value} (hv : member = some v) : v = .null ∨ ∃ s, v = .str s := by
  rcases h with h | ⟨h, -⟩
  · rw [h] at hv
    obtain ⟨s, -, rfl⟩ := Option.map_eq_some_iff.mp hv
    exact .inr ⟨s, rfl⟩
  · rw [h] at hv
    exact .inl (Option.some.inj hv).symm

theorem readSinceCutoff_carries {params : Value} {o : Option String}
    (h : readSinceCutoff params = .ok o) : params.get "since" = o.map Value.str := by
  rw [readSinceCutoff] at h
  cases hget : params.get "since" with
  | none =>
    rw [hget] at h
    obtain rfl := Except.ok.inj h
    rfl
  | some v =>
    rw [hget] at h
    cases v with
    | str s =>
      obtain rfl := Except.ok.inj h
      rfl
    | _ => cases h

/-- What is read are the values of the parameters, where they fit. -/
theorem carries_readJobHistoryParams {c : Catalogue} {params : Value} {r : HistoryRequest}
    (h : readJobHistoryParams c params = .ok r) (hfits : FitsRequest params) :
    Carries params r := by
  obtain ⟨-, -, h⟩ := exists_of_bind_eq_ok h
  obtain ⟨limit, hlimit, h⟩ := exists_of_bind_eq_ok h
  obtain ⟨hours, hhours, h⟩ := exists_of_bind_eq_ok h
  obtain ⟨since, hsince, h⟩ := exists_of_bind_eq_ok h
  obtain rfl := Except.ok.inj h
  exact ⟨castU32_carries hlimit (hfits.numbers _ (by simp)),
    textGiven_textOrNone (hfits.filters _ (by simp)),
    textGiven_textOrNone (hfits.filters _ (by simp)),
    castU32_carries hhours (hfits.numbers _ (by simp)), readSinceCutoff_carries hsince⟩

/-- Only parameters that fit hold the values of a request. -/
theorem fitsRequest_of_carries {params : Value} {r : HistoryRequest} (h : Carries params r) :
    FitsRequest params := by
  constructor
  · intro key hkey v n hv hn
    rcases List.mem_pair.mp hkey with rfl | rfl
    · exact number_lt_of_carries h.limit hv hn
    · exact number_lt_of_carries h.sinceHours hv hn
  · intro key hkey v hv
    rcases List.mem_pair.mp hkey with rfl | rfl
    · exact text_of_textGiven h.statusFilter hv
    · exact text_of_textGiven h.actionFilter hv

theorem historyGate_of_queryActionGates {d : Daemon}
    (h : queryActionGates d "ListJobHistory" = .ok ()) : historyGate d = .ok () := by
  rw [queryActionGates] at h
  rw [historyGate]
  split at h
  · cases h
  · rename_i hrole
    rw [hrole]
  · cases h

/-- The listed transactions are the answer to a request with the values of the parameters: the
newest rows it asks for, as `handle_query_history` lists them too. -/
def AnswersRequest (env : HistoryEnv δ) (rows : List HistoryRow) (d : Daemon) (params : Value)
    (records : List TransactionRecord) : Prop :=
  ∃ (r : HistoryRequest) (listed : List HistoryRow) (entries : List JobHistoryEntry),
    Carries params r ∧ r.Selects env rows listed ∧
    listed.mapM (rowToRecord env) = .ok records ∧ listed.mapM (rowToEntry env) = .ok entries ∧
    handleQueryHistory env rows d r = .ok entries

end Agreement

/-- **The two history queries**: the action answers as the typed request with the values of its
parameters does, exactly when every number fits in 32 bits and every filter is a text or null. -/
theorem listJobHistory_agrees_iff {δ : Type} (env : HistoryEnv δ) (rows : List HistoryRow)
    (d : Daemon) (c : Catalogue) (params : Value) (r : HistoryRequest)
    (records : List TransactionRecord) (h : listJobHistory env rows d c params = .ok (r, records)) :
    AnswersRequest env rows d params records ↔ FitsRequest params := by
  constructor
  · rintro ⟨_, _, _, hcarries, -⟩
    exact fitsRequest_of_carries hcarries
  · intro hfits
    obtain ⟨⟨⟩, hgates, h⟩ := exists_of_bind_eq_ok h
    obtain ⟨r', hread, h⟩ := exists_of_bind_eq_ok h
    obtain ⟨since, hsince, h⟩ := exists_of_bind_eq_ok h
    obtain ⟨records', hrecords, h⟩ := exists_of_bind_eq_ok h
    obtain ⟨rfl, rfl⟩ := Prod.mk.inj (Except.ok.inj h)
    obtain ⟨listed, entries, hselects, hlisted, hentries, hhistory⟩ :=
      listed_of_listTransactions (mapError_eq_ok_iff.mp hsince) (mapError_eq_ok_iff.mp hrecords)
    refine ⟨r', listed, entries, carries_readJobHistoryParams hread hfits, hselects, hlisted,
      hentries, ?_⟩
    rw [handleQueryHistory, historyGate_of_queryActionGates hgates, ok_bind, hsince, ok_bind,
      hhistory]
    rfl

/-! ### Sample queries -/

/-- A host on which nothing but the history is asked for. -/
def historyHost : Daemon := sampleDaemon ["ListJobHistory"]

/-- A catalogue without the actions that no sample asks for. -/
def historyCatalogue : Catalogue := ⟨fun _ => none, fun name _ => .error (.unknownAction name)⟩

/-- The columns as the store writes them, no warnings, and no instants. -/
def literalEnv : HistoryEnv String where
  readState text :=
    if text = "\"succeeded\"" then .ok .succeeded else .error "unknown variant"
  readRisk text := if text = "\"low\"" then .ok .low else .error "unknown variant"
  readWarnings text := if text = "[]" then .ok [] else .error "expected value"
  parseFromRfc3339 _ := .error "premature end of input"
  withinHours _ _ := true
  atOrAfter _ _ := true

def diskRow : HistoryRow :=
  ⟨1, "tx-1", "req-1", "hash-1", "GetDiskUsage", "\"low\"", "\"succeeded\"", none, "disk usage",
    "[]", "2026-01-01T00:00:00.000Z"⟩

def diskRecord : TransactionRecord :=
  ⟨"tx-1", "req-1", "hash-1", "GetDiskUsage", .low, .succeeded, none, "disk usage", []⟩

theorem queryActionGates_historyHost : queryActionGates historyHost "ListJobHistory" = .ok () := by
  have hrole : historyHost.policy.minRoleForAction "ListJobHistory" = some .observer := rfl
  have hplatform : historyHost.validateActionPlatform "ListJobHistory" = .ok () := rfl
  have hreads : "ListJobHistory" ∉ observerMutatingActions := by decide
  rw [queryActionGates, hrole, hplatform]
  exact if_neg hreads

/-- A query without a lower bound on a store of one row. -/
theorem listJobHistory_diskRow {params : Value} {limit : UInt32} {action : Option String}
    {records : List TransactionRecord}
    (hread : readJobHistoryParams historyCatalogue params =
      .ok ⟨some limit, none, action, none, none⟩)
    (hmatch : action.all (· == "GetDiskUsage") = true)
    (hrecords : ([diskRow].take (min limit.toNat 100)).mapM (rowToRecord literalEnv) =
      .ok records) :
    listJobHistory literalEnv [diskRow] historyHost historyCatalogue params =
      .ok (⟨some limit, none, action, none, none⟩, records) := by
  have hfilter : [diskRow].filter (HistoryFilter.matches literalEnv
      ⟨none, action, none, min limit.toNat 100⟩) = [diskRow] := by
    refine List.filter_eq_self.mpr fun row hrow => ?_
    obtain rfl := List.mem_singleton.mp hrow
    cases action with
    | none => rfl
    | some name =>
      obtain rfl : name = "GetDiskUsage" := by simpa using hmatch
      rfl
  have hlist : listTransactions literalEnv [diskRow] limit none action none = .ok records := by
    change (HistoryFilter.select literalEnv [diskRow]
      ⟨none, action, none, min limit.toNat 100⟩).mapM (rowToRecord literalEnv) = _
    rw [HistoryFilter.select, Table.selectNewest, hfilter, List.mergeSort_singleton]
    exact hrecords
  rw [listJobHistory, queryActionGates_historyHost, ok_bind, hread, ok_bind]
  change (listTransactions literalEnv [diskRow] limit none action none).mapError _ >>= _ = _
  rw [hlist]
  rfl

theorem mapM_diskRow : [diskRow].mapM (rowToRecord literalEnv) = .ok [diskRecord] := by
  simp only [List.mapM_cons, List.mapM_nil]
  rfl

theorem listJobHistory_agrees_diskUsage :
    AnswersRequest literalEnv [diskRow] historyHost
        (.obj [("limit", .int 5), ("action_filter", .str "GetDiskUsage")]) [diskRecord] ↔
      FitsRequest (.obj [("limit", .int 5), ("action_filter", .str "GetDiskUsage")]) :=
  listJobHistory_agrees_iff literalEnv [diskRow] historyHost historyCatalogue _
    ⟨some 5, none, some "GetDiskUsage", none, none⟩ [diskRecord]
    (listJobHistory_diskRow rfl (by decide) mapM_diskRow)

/-- A limit of 2³² is cast to zero and lists nothing, and a filter that is no text is passed over;
both are answered without an error. -/
theorem listJobHistory_wraps :
    listJobHistory literalEnv [diskRow] historyHost historyCatalogue
        (.obj [("limit", .int 4294967296)]) = .ok (⟨some 0, none, none, none, none⟩, []) ∧
      ¬AnswersRequest literalEnv [diskRow] historyHost (.obj [("limit", .int 4294967296)]) [] ∧
      listJobHistory literalEnv [diskRow] historyHost historyCatalogue
        (.obj [("limit", .int 5), ("action_filter", .int 7)]) =
          .ok (⟨some 5, none, none, none, none⟩, [diskRecord]) ∧
      ¬AnswersRequest literalEnv [diskRow] historyHost
        (.obj [("limit", .int 5), ("action_filter", .int 7)]) [diskRecord] := by
  refine ⟨?_, ?_, ?_, ?_⟩
  · exact listJobHistory_diskRow rfl rfl rfl
  · rintro ⟨r, -, -, hcarries, -⟩
    have hlt := (fitsRequest_of_carries hcarries).numbers "limit" (by simp) _ 4294967296 rfl rfl
    omega
  · exact listJobHistory_diskRow rfl rfl mapM_diskRow
  · rintro ⟨r, -, -, hcarries, -⟩
    rcases (fitsRequest_of_carries hcarries).filters "action_filter" (by simp) _ rfl with h | ⟨s, h⟩
    · cases h
    · cases h

end Sysknife.Dispatcher
