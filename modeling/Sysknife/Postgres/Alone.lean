import Sysknife.Lib.Alone
import Sysknife.Postgres.Store
import Sysknife.Store.Lifecycle
import Sysknife.Store.Statements

/-!
# PostgreSQL operations that run alone

An operation of the PostgreSQL store that runs alone, with nothing failing, does what the operation
of the SQLite store does. The statements are others and come in another order, rows are found by
other searches, and the moment of a consumption is written in another form; tables that agree but
for that moment (`Mirrors`) stay so, and the answers are the same.

* `Does`: what a piece of an operation does inside its transaction, as a function of the SQLite
  tables. It composes along `bind` (`Does.bind`).
* `Ready`: what both backends rely on, kept by every write.
-/

namespace Sysknife.Postgres

open Audit Store

/-! ### Programs that run alone -/

/-- Nothing fails. -/
def quiet (clock : Clock) : PgChoice := ⟨clock, none, false⟩

section Alone

variable (env : StoreEnv) (clock : Clock) {α β : Type}

/-- The answer of a piece of code on its own, and the database after it. -/
def alone (q : Query α) (db : Db) : Except StoreError α × Db :=
  q.run.alone (fun db c => db.serve env (quiet clock) c) db

variable {env clock} {q : Query α} {f : α → Query β} {db db' : Db}

theorem alone_bind_of_ok {a : α} (h : alone env clock q db = (.ok a, db')) :
    alone env clock (q >>= f) db = alone env clock (f a) db' := by
  have hbind := @Prog.alone_bind _ _ _ _ _ (fun db c => Db.serve env db (quiet clock) c) q.run
    (ExceptT.bindCont f) db
  rw [show q.run.alone (fun db c => Db.serve env db (quiet clock) c) db = (.ok a, db') from h]
    at hbind
  exact hbind

theorem alone_bind_of_error {e : StoreError} (h : alone env clock q db = (.error e, db')) :
    alone env clock (q >>= f) db = (.error e, db') := by
  have hbind := @Prog.alone_bind _ _ _ _ _ (fun db c => Db.serve env db (quiet clock) c) q.run
    (ExceptT.bindCont f) db
  rw [show q.run.alone (fun db c => Db.serve env db (quiet clock) c) db = (.error e, db') from h]
    at hbind
  exact hbind

end Alone

/-! ### Tables that mirror each other -/

/-- An approval without the moment it was consumed at. -/
def timeless (a : ApprovalRow) : ApprovalRow :=
  { a with consumedAt := a.consumedAt.map fun _ => "" }

/-- The tables of the two backends agree, but for the moments of consumption. -/
structure Mirrors (s : Tables) (p : PgTables) : Prop where
  transactions : p.transactions = s.transactions
  events : p.events = s.events
  previews (t : String) : p.previews t = s.getPreview t
  approvals (t : String) : (p.approvals t).map timeless = (s.findApproval t).map timeless

/-- What the operations rely on. -/
structure Ready (env : StoreEnv) (key : AuditKey) (s : Tables) : Prop where
  keyed : s.Keyed
  transactions : s.transactions.Pairwise fun a b => a.seq < b.seq
  events : s.events.Pairwise fun a b => a.seq < b.seq
  previews (t : String) (h : (s.getPreview t).isSome) : (s.findTransaction t).isSome
  committed (r : TransactionRow) (h : r ∈ s.transactions) :
    r.approvalId = some (approvalCommitment env key r.transactionId r.requestHash)

theorem mirrors_empty : Mirrors .empty .empty := ⟨rfl, rfl, fun _ => rfl, fun _ => rfl⟩

theorem ready_empty (env : StoreEnv) (key : AuditKey) : Ready env key .empty where
  keyed := ⟨List.nodup_nil, List.nodup_nil⟩
  transactions := .nil
  events := .nil
  previews t h := by cases h
  committed r h := absurd h List.not_mem_nil

/-- The newest of rows in ascending order is the last one. -/
theorem newest_eq_getLast? {α : Type} {seq : α → ℕ} {rows : List α}
    (h : rows.Pairwise fun a b => seq a < seq b) : newest seq rows = rows.getLast? := by
  induction rows using List.reverseRecOn with
  | nil => rfl
  | append_singleton rows r ih =>
    obtain ⟨hrows, -, hlast⟩ := List.pairwise_append.mp h
    rw [newest, List.foldl_append, List.foldl_cons, List.foldl_nil, ← newest, ih hrows,
      List.getLast?_concat, if_neg]
    simp only [Option.any_eq_true, decide_eq_true_eq, not_exists, not_and]
    intro b hb
    exact (hlast b (List.mem_of_getLast? hb) r (List.mem_singleton_self r)).le.not_gt

/-- The number after the newest one is free. -/
theorem lt_next {α : Type} {seq : α → ℕ} {rows : List α}
    (h : rows.Pairwise fun a b => seq a < seq b) {r : α} (hr : r ∈ rows) :
    seq r < (rows.getLast?.map seq).getD 0 + 1 := by
  induction rows using List.reverseRecOn with
  | nil => cases hr
  | append_singleton rows last ih =>
    obtain ⟨hrows, -, hlast⟩ := List.pairwise_append.mp h
    rw [List.getLast?_concat, Option.map_some, Option.getD_some, Nat.lt_succ_iff]
    obtain hr | hr := List.mem_append.mp hr
    · exact (hlast r hr last (List.mem_singleton_self last)).le
    · rw [List.mem_singleton.mp hr]

/-- A row with the next number keeps the order. -/
theorem pairwise_concat {α : Type} {seq : α → ℕ} {rows : List α} {r : α}
    (h : rows.Pairwise fun a b => seq a < seq b)
    (hr : seq r = (rows.getLast?.map seq).getD 0 + 1) :
    (rows ++ [r]).Pairwise fun a b => seq a < seq b := by
  refine List.pairwise_append.mpr ⟨h, List.pairwise_singleton _ _, fun a ha b hb => ?_⟩
  rw [List.mem_singleton.mp hb, hr]
  exact lt_next h ha

section Mirrored

variable {s : Tables} {p : PgTables} {t : String}

theorem Mirrors.findTransaction (h : Mirrors s p) (t : String) :
    p.findTransaction t = s.findTransaction t := by
  rw [PgTables.findTransaction, h.transactions]
  rfl

theorem Mirrors.statusOf (h : Mirrors s p) (t : String) : p.statusOf t = s.statusOf t := by
  rw [PgTables.statusOf, h.findTransaction]
  rfl

theorem Mirrors.isSome_approvals (h : Mirrors s p) (t : String) :
    (p.approvals t).isSome = (s.findApproval t).isSome := by
  simpa using congrArg Option.isSome (h.approvals t)

/-- What can be told of an approval without its moment is the same on both sides. -/
theorem Mirrors.approval_eq {β : Type} (h : Mirrors s p) (t : String) (g : ApprovalRow → β)
    (hg : ∀ a, g (timeless a) = g a) : (p.approvals t).map g = (s.findApproval t).map g := by
  have hmap := congrArg (Option.map g) (h.approvals t)
  simpa only [Option.map_map, Function.comp_def, hg] using hmap

/-- The approval of a transaction that is not consumed. -/
def liveApproval (s : Tables) (t : String) : Option ApprovalRow :=
  (s.findApproval t).filter fun a => a.consumedAt.isNone

theorem Mirrors.digest_unconsumed (h : Mirrors s p) (t : String) :
    (p.unconsumed t).map ApprovalRow.receiptDigest =
      (liveApproval s t).map ApprovalRow.receiptDigest := by
  have hpair := h.approval_eq t (fun a => (a.consumedAt.isNone, a.receiptDigest))
    fun a => by simp [timeless]
  rw [PgTables.unconsumed, liveApproval]
  cases hp : p.approvals t with
  | none =>
    rw [hp, Option.map_none, eq_comm, Option.map_eq_none_iff] at hpair
    rw [hpair]
  | some a =>
    rw [hp, Option.map_some, eq_comm, Option.map_eq_some_iff] at hpair
    obtain ⟨b, hb, hab⟩ := hpair
    obtain ⟨hnone, hdigest⟩ := Prod.mk.inj hab
    rw [hb, Option.filter_some, Option.filter_some, hnone]
    split_ifs
    · exact congrArg some hdigest.symm
    · rfl

theorem Mirrors.isSome_unconsumed (h : Mirrors s p) (t : String) :
    (p.unconsumed t).isSome = (liveApproval s t).isSome := by
  simpa using congrArg Option.isSome (h.digest_unconsumed t)

end Mirrored

/-! ### Rules -/

/-- The errors of the backends have the same text, but for that of a key that is taken. -/
def SameError (e e' : StoreError) : Prop :=
  e' = e ∨ e = .sqlite "UNIQUE constraint failed: transactions.transaction_id" ∧
    e' = Statement.uniqueViolation "transactions_pkey"

section Does

variable (env : StoreEnv) (clock : Clock) (key : AuditKey) (base : Db) (tx : TxId) {α β : Type}

/-- The database stands inside a transaction, and shows it tables that mirror `s`. -/
def InTx (s : Tables) (db : Db) : Prop :=
  ∃ ws held, db = base.setSession tx (some ⟨ws, held⟩) ∧
    Mirrors s (base.committed.writes ws) ∧ Ready env key s

/-- The transaction has ended, and left tables that mirror `s`. -/
def Ended (s : Tables) (db : Db) : Prop :=
  ∃ committed, db = { base.setSession tx none with committed := committed } ∧
    Mirrors s committed ∧ Ready env key s

/-- A function of the tables and a database come to the same: the same answer, on a database that
`P` relates to the tables, or the same error, with the transaction rolled back. -/
def Outcome (P : Tables → Db → Prop) (result : Except StoreError (α × Tables))
    (r : Except StoreError α × Db) : Prop :=
  (∀ a s, result = .ok (a, s) → r.1 = .ok a ∧ P s r.2) ∧
    ∀ e, result = .error e → ∃ e', r = (.error e', base.setSession tx none) ∧ SameError e e'

/-- Inside a transaction that mirrors `s`, the code comes to `result`. -/
def Does (P : Tables → Db → Prop) (s : Tables) (q : Query α)
    (result : Except StoreError (α × Tables)) : Prop :=
  ∀ db, InTx env key base tx s db → Outcome base tx P result (alone env clock q db)

end Does

section Rules

variable {env : StoreEnv} {clock : Clock} {key : AuditKey} {base : Db} {tx : TxId} {α β : Type}
  {s s' : Tables} {P : Tables → Db → Prop}

theorem Does.congr {q : Query α} {r r' : Except StoreError (α × Tables)}
    (h : Does env clock key base tx P s q r) (hr : r = r') : Does env clock key base tx P s q r' :=
  hr ▸ h

theorem Does.pure (a : α) :
    Does env clock key base tx (InTx env key base tx) s (Pure.pure a) (.ok (a, s)) := by
  intro db hdb
  refine ⟨fun a' s' h => ?_, fun e h => by cases h⟩
  obtain ⟨rfl, rfl⟩ := Prod.mk.inj (Except.ok.inj h)
  exact ⟨rfl, hdb⟩

/-- The rule of sequential composition. -/
theorem Does.bind {q : Query α} {r : Except StoreError (α × Tables)} {f : α → Query β}
    {g : α → Tables → Except StoreError (β × Tables)}
    (h : Does env clock key base tx (InTx env key base tx) s q r)
    (hf : ∀ a s', r = .ok (a, s') → Does env clock key base tx P s' (f a) (g a s')) :
    Does env clock key base tx P s (q >>= f) (r >>= fun x => g x.1 x.2) := by
  intro db hdb
  obtain ⟨hok, herror⟩ := h db hdb
  cases r with
  | error e =>
    obtain ⟨e', hrun, hsame⟩ := herror e rfl
    rw [alone_bind_of_error hrun]
    refine ⟨(fun _ _ h => by cases h), fun e₂ h => ?_⟩
    obtain rfl : e = e₂ := Except.error.inj h
    exact ⟨e', rfl, hsame⟩
  | ok x =>
    obtain ⟨a, s'⟩ := x
    obtain ⟨hanswer, hdb'⟩ := hok a s' rfl
    rw [alone_bind_of_ok (Prod.ext hanswer rfl)]
    exact hf a s' rfl _ hdb'

/-- What fails ends there. -/
theorem Does.bind_error {q : Query α} {f : α → Query β} {e : StoreError}
    (h : Does env clock key base tx (InTx env key base tx) s q (.error e)) :
    Does env clock key base tx P s (q >>= f) (.error e) :=
  Does.bind (g := fun _ _ => .error e) h fun _ _ h => by cases h

/-- The rule of sequential composition, where the first part answers. -/
theorem Does.step {q : Query α} {a : α} {f : α → Query β} {r : Except StoreError (β × Tables)}
    (h : Does env clock key base tx (InTx env key base tx) s q (.ok (a, s')))
    (hf : Does env clock key base tx P s' (f a) r) :
    Does env clock key base tx P s (q >>= f) r := by
  intro db hdb
  obtain ⟨hanswer, hdb'⟩ := (h db hdb).1 a s' rfl
  rw [alone_bind_of_ok (Prod.ext hanswer rfl)]
  exact hf _ hdb'

/-- A statement that reports `a` and brings the tables to what mirrors `s'`. -/
theorem Does.exec {st : Statement} {a : st.Result} (hready : Ready env key s')
    (h : ∀ p, Mirrors s p → st.run env clock p = .ok a ∧
      Mirrors s' (p.writes (st.write a).toList)) :
    Does env clock key base tx (InTx env key base tx) s (Postgres.exec tx st) (.ok (a, s')) := by
  rintro _ ⟨ws, held, rfl, hmirrors, -⟩
  obtain ⟨hrun, hmirrors'⟩ := h _ hmirrors
  have hsession : (base.setSession tx (some ⟨ws, held⟩)).sessions tx = some ⟨ws, held⟩ :=
    if_pos rfl
  have hview : (base.setSession tx (some ⟨ws, held⟩)).view tx = base.committed.writes ws := by
    rw [Db.view, hsession]
    rfl
  have hexec : alone env clock (Postgres.exec tx st) (base.setSession tx (some ⟨ws, held⟩)) =
      (.ok a, base.setSession tx (some
        ⟨ws ++ (st.write a).toList, held ++ st.locks a⟩)) := by
    show Db.exec env _ (quiet clock) tx st = _
    rw [Db.exec, hsession]
    dsimp only [quiet]
    rw [hview, hrun]
    simp only [Db.setSession]
    congr 2
    funext tx'
    split_ifs <;> rfl
  rw [hexec]
  refine ⟨fun a' s'' heq => ?_, fun e heq => by cases heq⟩
  obtain ⟨rfl, rfl⟩ := Prod.mk.inj (Except.ok.inj heq)
  refine ⟨rfl, _, _, rfl, ?_, hready⟩
  rw [PgTables.writes, List.foldl_append]
  exact hmirrors'

/-- A statement that writes nothing. -/
theorem Does.read {st : Statement} {a : st.Result} (hready : Ready env key s)
    (hwrite : st.write a = none) (h : ∀ p, Mirrors s p → st.run env clock p = .ok a) :
    Does env clock key base tx (InTx env key base tx) s (Postgres.exec tx st) (.ok (a, s)) := by
  refine Does.exec hready fun p hp => ⟨h p hp, ?_⟩
  rw [hwrite]
  exact hp

/-- A statement that fails. -/
theorem Does.exec_error {st : Statement} {e e' : StoreError} (hsame : SameError e e')
    (h : ∀ p, Mirrors s p → st.run env clock p = .error e') :
    Does env clock key base tx P s (Postgres.exec tx st) (.error e) := by
  rintro _ ⟨ws, held, rfl, hmirrors, -⟩
  have hsession : (base.setSession tx (some ⟨ws, held⟩)).sessions tx = some ⟨ws, held⟩ :=
    if_pos rfl
  have hview : (base.setSession tx (some ⟨ws, held⟩)).view tx = base.committed.writes ws := by
    rw [Db.view, hsession]
    rfl
  have hexec : alone env clock (Postgres.exec tx st) (base.setSession tx (some ⟨ws, held⟩)) =
      (.error e', base.setSession tx none) := by
    show Db.exec env _ (quiet clock) tx st = _
    rw [Db.exec, hsession]
    dsimp only [quiet]
    rw [hview, h _ hmirrors]
    simp only [Db.rollback, Db.setSession]
    congr 2
    funext tx'
    split_ifs <;> rfl
  rw [hexec]
  refine ⟨(fun _ _ heq => by cases heq), fun e₂ heq => ⟨e', rfl, ?_⟩⟩
  obtain rfl := Except.error.inj heq
  exact hsame

theorem Does.nowIso :
    Does env clock key base tx (InTx env key base tx) s Postgres.nowIso (.ok (clock.text, s)) := by
  intro db hdb
  refine ⟨fun a s' h => ?_, fun e h => by cases h⟩
  obtain ⟨rfl, rfl⟩ := Prod.mk.inj (Except.ok.inj h)
  exact ⟨rfl, hdb⟩

/-- The last call of an operation that answers. -/
theorem Does.commit : Does env clock key base tx (Ended env key base tx) s (Postgres.commit tx)
    (.ok ((), s)) := by
  rintro _ ⟨ws, held, rfl, hmirrors, hready⟩
  refine ⟨fun a s' h => ?_, fun e h => by cases h⟩
  obtain ⟨rfl, rfl⟩ := Prod.mk.inj (Except.ok.inj h)
  refine ⟨rfl, base.committed.writes ws, ?_, hmirrors, hready⟩
  show Db.commit _ tx = _
  have hsession : (base.setSession tx (some ⟨ws, held⟩)).sessions tx = some ⟨ws, held⟩ :=
    if_pos rfl
  rw [Db.commit, Db.view, hsession]
  simp only [Db.setSession]
  congr 1
  funext tx'
  split_ifs <;> rfl

/-- What follows the last call. -/
theorem Does.commit_pure (a : α) : Does env clock key base tx (Ended env key base tx) s
    (Postgres.commit tx >>= fun _ => Pure.pure a) (.ok (a, s)) := by
  intro db hdb
  obtain ⟨hanswer, hended⟩ := (Does.commit db hdb).1 () s rfl
  rw [alone_bind_of_ok (Prod.ext hanswer rfl)]
  refine ⟨fun a' s' h => ?_, fun e h => by cases h⟩
  obtain ⟨rfl, rfl⟩ := Prod.mk.inj (Except.ok.inj h)
  exact ⟨rfl, hended⟩

/-- An operation that commits what its work inside the transaction came to. -/
theorem Does.commit_map {q : Query α} {r : Except StoreError (α × Tables)}
    (h : Does env clock key base tx (InTx env key base tx) s q r) (g : α → β) :
    Does env clock key base tx (Ended env key base tx) s
      (q >>= fun a => Postgres.commit tx >>= fun _ => Pure.pure (g a))
      (r.map fun x => (g x.1, x.2)) := by
  refine Does.congr (Does.bind (g := fun a s' => .ok (g a, s')) h fun a s' _ =>
    Does.commit_pure (g a)) ?_
  cases r <;> rfl

/-- What holds inside the transaction may be used. -/
theorem Does.of_ready {q : Query α} {r : Except StoreError (α × Tables)}
    (h : Ready env key s → Does env clock key base tx P s q r) :
    Does env clock key base tx P s q r := by
  rintro db ⟨ws, held, rfl, hmirrors, hready⟩
  exact h hready _ ⟨ws, held, rfl, hmirrors, hready⟩

/-- An operation that gives up. -/
theorem Does.abandon (e : StoreError) :
    Does env clock key base tx P s (Postgres.abandon tx e : Query α) (.error e) := by
  rintro _ ⟨ws, held, rfl, -, -⟩
  refine ⟨(fun _ _ h => by cases h), fun e₂ h => ⟨e, ?_, Or.inl (Except.error.inj h)⟩⟩
  show (_, Db.rollback _ tx) = _
  rw [Db.rollback]
  simp only [Db.setSession, Prod.mk.injEq, true_and]
  congr 1
  funext tx'
  split_ifs <;> rfl

end Rules

/-! ### What keeps the tables ready -/

section Readiness

variable {env : StoreEnv} {clock : Clock} {key : AuditKey} {s : Tables} {t : String}

theorem appendEvent_eq (kind : AuditEventKind) (digest : String) (identity : EventIdentity) :
    Store.appendEvent clock key kind t digest identity s =
      { s with
        events := s.events ++
          [eventRow key s.events.getLast? clock.text kind t digest identity] } := by
  cases identity <;> rfl

theorem Ready.appendEvent (h : Ready env key s) (kind : AuditEventKind) (digest : String)
    (identity : EventIdentity) :
    Ready env key (Store.appendEvent clock key kind t digest identity s) := by
  rw [appendEvent_eq]
  exact ⟨⟨h.keyed.transactions, h.keyed.approvals⟩, h.transactions, pairwise_concat h.events rfl,
    h.previews, h.committed⟩

theorem Ready.setStatusWhere (h : Ready env key s) (p : TransactionRow → Bool)
    (status : JobState) : Ready env key (s.setStatusWhere p status).2 := by
  have hfind : ∀ t, ((s.setStatusWhere p status).2.findTransaction t).isSome =
      (s.findTransaction t).isSome := by
    intro t
    rw [Tables.findTransaction, Tables.findTransaction]
    refine (congrArg Option.isSome (Table.lookup_updateWhere ?_ t)).trans Option.isSome_map
    exact fun r => rfl
  refine ⟨⟨Table.uniqueKey_updateWhere (fun r => rfl) h.keyed.transactions, h.keyed.approvals⟩,
    ?_, h.events, fun t ht => (hfind t).trans (h.previews t ht), fun r hr => ?_⟩
  · refine List.pairwise_map.mpr (h.transactions.imp fun hab => ?_)
    split_ifs <;> exact hab
  · obtain ⟨r', hr', rfl⟩ := List.mem_map.mp hr
    split_ifs <;> exact h.committed r' hr'

/-- Only the keys of the approvals matter. -/
theorem Ready.setApprovals (h : Ready env key s) {approvals : List ApprovalRow}
    (hunique : Table.UniqueKey ApprovalRow.transactionId approvals) :
    Ready env key { s with approvals := approvals } :=
  ⟨⟨h.keyed.transactions, hunique⟩, h.transactions, h.events, h.previews, h.committed⟩

theorem Ready.insert (h : Ready env key s) (tx : NewTransaction)
    (hnew : s.findTransaction t = none) :
    Ready env key { s with transactions := s.transactions ++ [newRow env clock key t tx s] } := by
  refine ⟨⟨Table.uniqueKey_concat h.keyed.transactions hnew, h.keyed.approvals⟩,
    pairwise_concat h.transactions ?_, h.events, fun t' ht' => ?_, fun r hr => ?_⟩
  · rw [newRow, nextSeq, List.getLast?_map, Option.map_map]
    rfl
  · have hold := h.previews t' ht'
    rw [Tables.findTransaction] at hold ⊢
    rw [Table.lookup_append]
    rw [Option.isSome_or, hold, Bool.true_or]
  · obtain hr | hr := List.mem_append.mp hr
    · exact h.committed r hr
    · rw [List.mem_singleton.mp hr]
      rfl

end Readiness

end Sysknife.Postgres
