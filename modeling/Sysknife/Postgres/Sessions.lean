import Mathlib.Data.List.Induction
import Sysknife.Postgres.Conduct

/-!
# Sessions and locks

One call of one operation, seen from the database: nothing happens, a transaction is opened, a
statement runs in it, or it ends (`Step`). Invariants over all interleavings are proved by that
case analysis (`pg_induction`). The first of them, `Linked`, ties the work of each operation to
the session it has open, and says that no row is held twice.
-/

namespace Sysknife.Postgres

open Audit Store

/-! ### Steps -/

/-- What an operation may do to the database by one call. -/
inductive Step (env : StoreEnv) (db : Db) (choice : PgChoice) (req : PgRequest) (g : Work) :
    PgCall → Db → Work → Prop
  /-- Nothing changes. -/
  | quiet (op : PgCall) : Step env db choice req g op db g
  /-- A transaction is opened. -/
  | opens (hnone : g.tx = none) :
      Step env db choice req g .begin_ db.open_ { g with tx := some db.nextTx }
  /-- A statement runs, on rows that no other transaction holds. -/
  | runs {tx : TxId} {st : Statement} {s : Session} {result : st.Result} (hopen : g.Open tx)
      (hfits : Fits req g st) (hs : db.sessions tx = some s) (hfault : choice.fault = none)
      (hrun : st.run env choice.clock (db.view tx) = .ok result)
      (hfree : ∀ l ∈ st.needs, db.heldByOther tx l = false) :
      Step env db choice req g (.exec tx st)
        (db.setSession tx (some ⟨s.writes ++ (st.write result).toList, s.held ++ st.locks result⟩))
        (g.after st result)
  /-- The transaction is undone. -/
  | ends {tx : TxId} {op : PgCall} (hopen : g.Open tx) :
      Step env db choice req g op (db.rollback tx) { g with closed := true }
  /-- The transaction is committed. -/
  | commits {tx : TxId} (hopen : g.Open tx) (hcomplete : Complete req g.missed g.lost g.writes)
      (hcleared : ∀ t st, .setStatus t st ∈ g.writes →
        t ∈ g.cleared ∨ ∃ new, req = .updateStatus t new) :
      Step env db choice req g (.commit tx) (db.commit tx) { g with closed := true }

theorem rollback_of_none {db : Db} {tx : TxId} (h : db.sessions tx = none) :
    db.rollback tx = db := by
  have hsame : (fun tx' => if tx' = tx then none else db.sessions tx') = db.sessions := by
    funext tx'
    split_ifs with heq
    · rw [heq, h]
    · rfl
  rw [Db.rollback, Db.setSession, hsame]

/-- **Every allowed call that does not have to wait is a step.** -/
theorem step_serve {env : StoreEnv} {db : Db} {choice : PgChoice} {req : PgRequest} {g : Work}
    {op : PgCall} (hallowed : Allowed req g op)
    (hfree : choice.fault = none → db.blocked op = false) :
    Step env db choice req g op (db.serve env choice op).2
      (g.next op (db.serve env choice op).1) := by
  cases op with
  | begin_ =>
    simp only [Db.serve]
    split
    · exact .quiet _
    · exact .opens hallowed
  | commit tx =>
    simp only [Db.serve]
    split
    · split_ifs
      · exact .commits hallowed.1 hallowed.2.1 hallowed.2.2
      · exact .ends hallowed.1
    · exact .commits hallowed.1 hallowed.2.1 hallowed.2.2
  | rollback tx => exact .ends hallowed
  | nowIso => exact .quiet _
  | selectCommitment t =>
    simp only [Db.serve]
    split <;> exact .quiet _
  | exec tx st =>
    simp only [Db.serve, Db.exec]
    split
    · exact .ends hallowed.1
    · rename_i hs
      have hend : Step env db choice req g (.exec tx st) (db.rollback tx)
        { g with closed := true } :=
        .ends hallowed.1
      rwa [rollback_of_none hs] at hend
    · rename_i s hfault hs
      split
      · exact .ends hallowed.1
      · rename_i result hrun
        refine .runs hallowed.1 hallowed.2 hs hfault hrun fun l hl => ?_
        have hblocked := hfree hfault
        simp only [Db.blocked, List.any_eq_false] at hblocked
        exact Bool.eq_false_iff.mpr (hblocked l hl)

/-! ### Work of the operations -/

section Works

variable {store : PgStore}

/-- How far an operation has come. -/
def work (p : store.system.Process) : Work := (conduct.after (p.request, {}) p.history).2

/-- The operations under way and their work. -/
def works (c : store.system.Config) (i : ℕ) : Option (PgRequest × Work) :=
  c.procs[i]?.map fun p => (p.request, work p)

theorem after_eq (p : store.system.Process) :
    conduct.after (p.request, {}) p.history = (p.request, work p) := by
  have hfst (calls : List (Call PgCall PgCall.Answer)) :
      (conduct.after (p.request, {}) calls).1 = p.request := by
    induction calls using List.reverseRecOn with
    | nil => rfl
    | append_singleton calls c ih => rw [conduct.after_concat, ih]
  exact Prod.ext (hfst _) rfl

theorem works_arrive {c : store.system.Config} {req : PgRequest} {i : ℕ} {x : PgRequest × Work}
    (h : works (c.arrive req) i = some x) : works c i = some x ∨ x = (req, {}) := by
  obtain ⟨p, hp, rfl⟩ := Option.map_eq_some_iff.mp h
  rcases System.getElem?_arrive hp with hold | ⟨-, rfl⟩
  · exact .inl (by rw [works, hold, Option.map_some])
  · exact .inr rfl

theorem works_call {c : store.system.Config} {pid : ℕ} {choice : PgChoice}
    {p : store.system.Process} {op : PgCall} {k : op.Answer → Prog PgCall PgCall.Answer Unit}
    (hp : c.procs[pid]? = some p) (i : ℕ) :
    works (c.call pid choice p op k) i =
      if i = pid then some (p.request, (work p).next op (c.world.serve store.env choice op).1)
      else works c i := by
  split_ifs with hi
  · subst hi
    rw [works, System.getElem?_call_self hp, Option.map_some, work, conduct.after_concat]
    rfl
  · rw [works, System.getElem?_call_of_ne hi, works]

/-- The database and the works before and after one call. -/
structure Moves (R : store.system.Config → store.system.Event → Prop) (c c' : store.system.Config)
    (pid : ℕ) (req : PgRequest) (g g' : Work) (op : PgCall) (choice : PgChoice) : Prop where
  before : works c pid = some (req, g)
  after : ∀ i, works c' i = if i = pid then some (req, g') else works c i
  step : Step store.env c.world choice req g op c'.world g'
  /-- The call is made as the run is assumed to go. -/
  rule : R c (.act pid choice)
  next : ∃ p k, c.procs[pid]? = some p ∧ p.request = req ∧ p.program = .call op k

/-- **The invariant rule of the store.** -/
theorem pg_induction {R : store.system.Config → store.system.Event → Prop}
    {P : store.system.Config → Prop} (hinit : P ⟨.initial, []⟩)
    (harrive : ∀ c req, P c → P (c.arrive req))
    (hstep : ∀ c c' pid req g g' op choice, P c → Moves R c c' pid req g g' op choice → P c')
    (events : List store.system.Event) (hunblocked : System.Along Unblocked events)
    (halong : System.Along R events) : P (store.system.run events) := by
  have hboth : System.Along (fun c e => Unblocked c e ∧ R c e) events :=
    fun pre e post heq => ⟨hunblocked pre e post heq, halong pre e post heq⟩
  refine System.run_induction conduct (fun req => (req, {})) (conducts store) hinit harrive
    (fun c pid choice p op k hc hR hp hprog hallowed => ?_) events hboth
  rw [after_eq] at hallowed
  refine hstep c _ pid p.request (work p) _ op choice hc
    ⟨by rw [works, hp, Option.map_some], works_call hp,
      step_serve hallowed fun hfault => hR.1 p op k hp hprog hfault, hR.2, p, k, hp, rfl, hprog⟩

/-! ### Transactions -/

/-- The committed tables and the operations whose transaction is open. -/
structure Txns where
  committed : PgTables
  opened : TxId → Option (PgRequest × Work)

namespace Txns

/-- The condition a run puts on the statements that are issued in it. -/
abbrev Rule := Txns → TxId → PgRequest → Statement → Prop

/-- What one call does to the transactions. -/
inductive Step (env : StoreEnv) (R : Rule) (x : Txns) : Txns → Prop
  | quiet : Step env R x x
  | opens {tx : TxId} {req : PgRequest} (hnone : x.opened tx = none) :
      Step env R x ⟨x.committed, Function.update x.opened tx (some (req, { tx := some tx }))⟩
  /-- A statement runs, on rows that no other transaction has written. -/
  | runs {tx : TxId} {req : PgRequest} {g : Work} {st : Statement} {result : st.Result}
      {clock : Clock} (hopen : x.opened tx = some (req, g)) (hfits : Fits req g st)
      (hrun : st.run env clock (x.committed.writes g.writes) = .ok result)
      (hfree : ∀ tx' req' g', tx' ≠ tx → x.opened tx' = some (req', g') →
        ∀ l ∈ st.needs, ∀ w ∈ g'.writes, l ∉ w.locks)
      (hrule : R x tx req st) :
      Step env R x ⟨x.committed, Function.update x.opened tx (some (req, g.after st result))⟩
  | ends (tx : TxId) : Step env R x ⟨x.committed, Function.update x.opened tx none⟩
  | commits {tx : TxId} {req : PgRequest} {g : Work} (hopen : x.opened tx = some (req, g))
      (hcomplete : Complete req g.missed g.lost g.writes)
      (hcleared : ∀ t st, .setStatus t st ∈ g.writes →
        t ∈ g.cleared ∨ ∃ new, req = .updateStatus t new) :
      Step env R x ⟨x.committed.writes g.writes, Function.update x.opened tx none⟩

/-- No two transactions have written the same row. -/
def Apart (x : Txns) : Prop :=
  ∀ {tx tx' req req' g g'}, tx ≠ tx' → x.opened tx = some (req, g) →
    x.opened tx' = some (req', g') →
    ∀ w ∈ g.writes, ∀ w' ∈ g'.writes, ∀ l ∈ w.locks, l ∉ w'.locks

end Txns

/-- The transactions that the database and the works amount to. -/
structure Tracks (db : Db) (ws : ℕ → Option (PgRequest × Work)) (x : Txns) : Prop where
  committed : x.committed = db.committed
  /-- Work begins with the transaction. -/
  fresh : ∀ {i req g}, ws i = some (req, g) → g.tx = none → g = {}
  known : ∀ {i req g tx}, ws i = some (req, g) → g.tx = some tx → tx < db.nextTx
  opened : ∀ {i req g tx}, ws i = some (req, g) → g.Open tx → x.opened tx = some (req, g)
  /-- Two operations have two transactions. -/
  apart : ∀ {i j req req' g g' tx}, ws i = some (req, g) → ws j = some (req', g') →
    g.tx = some tx → g'.tx = some tx → i = j
  session : ∀ tx, (db.sessions tx).map Session.writes = (x.opened tx).map fun o => o.2.writes
  /-- A number that was not given out is not in use. -/
  unused : ∀ tx, db.nextTx ≤ tx → x.opened tx = none
  held : ∀ {tx s}, db.sessions tx = some s → ∀ w ∈ s.writes, ∀ l ∈ w.locks, l ∈ s.held

theorem tracks_initial :
    Tracks .initial (works (⟨.initial, []⟩ : store.system.Config)) ⟨.empty, fun _ => none⟩ where
  committed := rfl
  fresh h := by simp [works] at h
  known h := by simp [works] at h
  opened h := by simp [works] at h
  apart h := by simp [works] at h
  session _ := rfl
  unused _ _ := rfl
  held h := by simp [Db.initial] at h

theorem update_eq_some {α : Type} {f : ℕ → Option α} {i j : ℕ} {y z : α}
    (h : Function.update f j (some y) i = some z) : (i = j ∧ y = z) ∨ (i ≠ j ∧ f i = some z) := by
  rcases eq_or_ne i j with rfl | hne
  · rw [Function.update_self] at h
    exact .inl ⟨rfl, Option.some.inj h⟩
  · rw [Function.update_of_ne hne] at h
    exact .inr ⟨hne, h⟩

theorem of_update_none {α : Type} {f : ℕ → Option α} {i j : ℕ} {z : α}
    (h : Function.update f j none i = some z) : i ≠ j ∧ f i = some z := by
  rcases eq_or_ne i j with rfl | hne
  · rw [Function.update_self] at h
    cases h
  · rw [Function.update_of_ne hne] at h
    exact ⟨hne, h⟩

section Track

variable {db db' : Db} {ws : ℕ → Option (PgRequest × Work)} {x : Txns} {pid : ℕ} {req : PgRequest}
  {g g' : Work} {tx : TxId}

/-- Operations that arrive have no transaction. -/
theorem Tracks.arrive {ws' : ℕ → Option (PgRequest × Work)} (h : Tracks db ws x)
    (hws : ∀ i y, ws' i = some y → ws i = some y ∨ y = (req, {})) : Tracks db ws' x where
  committed := h.committed
  fresh hi htx := by
    rcases hws _ _ hi with hi | hi
    · exact h.fresh hi htx
    · exact (Prod.ext_iff.mp hi).2
  known hi htx := by
    rcases hws _ _ hi with hi | hi
    · exact h.known hi htx
    · cases hi
      cases htx
  opened hi hopen := by
    rcases hws _ _ hi with hi | hi
    · exact h.opened hi hopen
    · cases hi
      cases hopen.1
  apart hi hj htx htx' := by
    rcases hws _ _ hi with hi | hi
    · rcases hws _ _ hj with hj | hj
      · exact h.apart hi hj htx htx'
      · cases hj
        cases htx'
    · cases hi
      cases htx
  session := h.session
  unused := h.unused
  held := h.held

/-- The session of an open transaction. -/
theorem Tracks.exists_session (h : Tracks db ws x) (hopen : x.opened tx = some (req, g)) :
    ∃ s, db.sessions tx = some s ∧ s.writes = g.writes := by
  have hs := h.session tx
  rw [hopen, Option.map_some] at hs
  exact Option.map_eq_some_iff.mp hs

theorem Tracks.view_eq (h : Tracks db ws x) (hpid : ws pid = some (req, g)) (hopen : g.Open tx) :
    db.view tx = x.committed.writes g.writes := by
  obtain ⟨s, hs, hwrites⟩ := h.exists_session (h.opened hpid hopen)
  rw [Db.view, hs, h.committed, ← hwrites]

theorem Tracks.lt_nextTx (h : Tracks db ws x) (hopen : x.opened tx = some (req, g)) :
    tx < db.nextTx := by
  by_contra hge
  rw [h.unused tx (Nat.le_of_not_lt hge)] at hopen
  cases hopen

/-- A row that nobody else holds was written by nobody else. -/
theorem Tracks.free (h : Tracks db ws x) {l : Lock} (hfree : db.heldByOther tx l = false)
    {tx' : TxId} {req' : PgRequest} (hne : tx' ≠ tx) (hopen : x.opened tx' = some (req', g')) :
    ∀ w ∈ g'.writes, l ∉ w.locks := by
  intro w hw hl
  obtain ⟨s, hs, hwrites⟩ := h.exists_session hopen
  have hheld := h.held hs w (by rw [hwrites]; exact hw) l hl
  simp only [Db.heldByOther, List.any_eq_false] at hfree
  exact hfree tx' (List.mem_range.mpr (h.lt_nextTx hopen)) (by simp [hne, hs, hheld])

/-- One operation goes on, in its own transaction. -/
theorem Tracks.set {session : Option Session} {y : Option (PgRequest × Work)} (h : Tracks db ws x)
    (hpid : ws pid = some (req, g)) (htx : g.tx = some tx) (htx' : g'.tx = some tx)
    (hnext : db'.nextTx = db.nextTx)
    (hsessions : db'.sessions = Function.update db.sessions tx session)
    (hwrites : session.map Session.writes = y.map fun o => o.2.writes)
    (hopened : g'.closed = false → y = some (req, g'))
    (hheld : ∀ s, session = some s → ∀ w ∈ s.writes, ∀ l ∈ w.locks, l ∈ s.held) :
    Tracks db' (Function.update ws pid (some (req, g')))
      ⟨db'.committed, Function.update x.opened tx y⟩ where
  committed := rfl
  fresh hi hnone := by
    rcases update_eq_some hi with ⟨rfl, heq⟩ | ⟨-, hi⟩
    · cases heq
      rw [htx'] at hnone
      cases hnone
    · exact h.fresh hi hnone
  known hi hsome := by
    rw [hnext]
    rcases update_eq_some hi with ⟨rfl, heq⟩ | ⟨-, hi⟩
    · cases heq
      exact h.known hpid (by rw [htx, ← htx', hsome])
    · exact h.known hi hsome
  opened {_ _ _ tx₁} hi hopen := by
    rcases update_eq_some hi with ⟨rfl, heq⟩ | ⟨hne, hi⟩
    · cases heq
      have htx₁ : tx₁ = tx := Option.some.inj (hopen.1.symm.trans htx')
      rw [htx₁]
      exact (Function.update_self ..).trans (hopened hopen.2)
    · have htx₁ : tx₁ ≠ tx := by
        rintro rfl
        exact hne (h.apart hi hpid hopen.1 htx)
      exact (Function.update_of_ne htx₁ ..).trans (h.opened hi hopen)
  apart hi hj hsome hsome' := by
    rcases update_eq_some hi with ⟨rfl, heq⟩ | ⟨-, hi₁⟩ <;>
      rcases update_eq_some hj with ⟨rfl, heq'⟩ | ⟨-, hj₁⟩
    · rfl
    · cases heq
      exact h.apart hpid hj₁ (by rw [htx, ← htx', hsome]) hsome'
    · cases heq'
      exact h.apart hi₁ hpid hsome (by rw [htx, ← htx', hsome'])
    · exact h.apart hi₁ hj₁ hsome hsome'
  session tx₁ := by
    rw [hsessions]
    rcases eq_or_ne tx₁ tx with rfl | hne
    · simpa using hwrites
    · simpa [hne] using h.session tx₁
  unused tx₁ hle := by
    have hne : tx₁ ≠ tx := by
      rintro rfl
      exact absurd (h.known hpid htx) (Nat.not_lt_of_le (hnext ▸ hle))
    exact (Function.update_of_ne hne ..).trans (h.unused tx₁ (hnext ▸ hle))
  held {tx₁ s} hs := by
    rw [hsessions] at hs
    rcases eq_or_ne tx₁ tx with rfl | hne
    · rw [Function.update_self] at hs
      exact hheld s hs
    · rw [Function.update_of_ne hne] at hs
      exact h.held hs

theorem setSession_sessions (db : Db) (tx : TxId) (session : Option Session) :
    (db.setSession tx session).sessions = Function.update db.sessions tx session := by
  funext tx'
  simp [Db.setSession, Function.update_apply]

/-- A statement locks the rows it writes. -/
theorem locks_of_write {st : Statement} {result : st.Result} {w : Write}
    (h : st.write result = some w) : ∀ l ∈ w.locks, l ∈ st.locks result := by
  intro l hl
  cases st <;> simp_all [Statement.locks, Statement.write]

/-- A statement waits for the rows it writes. -/
theorem needs_of_write {st : Statement} {result : st.Result} {w : Write}
    (h : st.write result = some w) : ∀ l ∈ w.locks, l ∈ st.needs := by
  intro l hl
  cases st <;> simp_all [Statement.needs, Statement.write] <;> grind [Write.locks]

/-- An operation opens its transaction. -/
theorem Tracks.begin_ (h : Tracks db ws x) (hpid : ws pid = some (req, g)) (hnone : g.tx = none) :
    Tracks db.open_ (Function.update ws pid (some (req, { g with tx := some db.nextTx })))
      ⟨x.committed, Function.update x.opened db.nextTx (some (req, { tx := some db.nextTx }))⟩ := by
  have hfresh := h.fresh hpid hnone
  subst hfresh
  have hnext : db.open_.nextTx = db.nextTx + 1 := rfl
  have hsessions : db.open_.sessions = Function.update db.sessions db.nextTx (some ⟨[], []⟩) :=
    setSession_sessions _ _ _
  have hother {i req' g' tx'} (hi : ws i = some (req', g')) (htx : g'.tx = some tx') :
      tx' ≠ db.nextTx := Nat.ne_of_lt (h.known hi htx)
  refine ⟨h.committed, ?_, ?_, ?_, ?_, ?_, ?_, ?_⟩
  · intro i req' g' hi htx
    rcases update_eq_some hi with ⟨rfl, heq⟩ | ⟨-, hi⟩
    · cases heq
      cases htx
    · exact h.fresh hi htx
  · intro i req' g' tx' hi htx
    rw [hnext]
    rcases update_eq_some hi with ⟨rfl, heq⟩ | ⟨-, hi⟩
    · cases heq
      cases htx
      exact Nat.lt_succ_self _
    · exact Nat.lt_succ_of_lt (h.known hi htx)
  · intro i req' g' tx' hi hopen
    rcases update_eq_some hi with ⟨rfl, heq⟩ | ⟨-, hi⟩
    · cases heq
      cases hopen.1
      exact Function.update_self ..
    · exact (Function.update_of_ne (hother hi hopen.1) ..).trans (h.opened hi hopen)
  · intro i j req₁ req₂ g₁ g₂ tx' hi hj htx htx'
    rcases update_eq_some hi with ⟨rfl, heq⟩ | ⟨-, hi₁⟩ <;>
      rcases update_eq_some hj with ⟨rfl, heq'⟩ | ⟨-, hj₁⟩
    · rfl
    · cases heq
      cases htx
      exact absurd rfl (hother hj₁ htx')
    · cases heq'
      cases htx'
      exact absurd rfl (hother hi₁ htx)
    · exact h.apart hi₁ hj₁ htx htx'
  · intro tx'
    rw [hsessions]
    rcases eq_or_ne tx' db.nextTx with rfl | hne
    · simp
    · simpa [hne] using h.session tx'
  · intro tx' hle
    rw [hnext] at hle
    exact (Function.update_of_ne (Nat.ne_of_gt hle) ..).trans (h.unused tx' (Nat.le_of_succ_le hle))
  · intro tx' s hs
    rw [hsessions] at hs
    rcases eq_or_ne tx' db.nextTx with rfl | hne
    · rw [Function.update_self] at hs
      cases hs
      simp
    · rw [Function.update_of_ne hne] at hs
      exact h.held hs

/-- **The calls of the operations are steps of the transactions.** -/
theorem Tracks.step {env : StoreEnv} {choice : PgChoice} {op : PgCall} {R : Txns.Rule}
    (h : Tracks db ws x) (hpid : ws pid = some (req, g))
    (hstep : Step env db choice req g op db' g')
    (hrule : ∀ tx st, op = .exec tx st → g.Open tx → choice.fault = none → R x tx req st) :
    ∃ x', Txns.Step env R x x' ∧ Tracks db' (Function.update ws pid (some (req, g'))) x' := by
  cases hstep with
  | quiet =>
    have hsame : Function.update ws pid (some (req, g)) = ws := by
      rw [← hpid, Function.update_eq_self]
    exact ⟨x, .quiet, by rwa [hsame]⟩
  | opens hnone =>
    exact ⟨_, .opens (h.unused _ (Nat.le_refl _)), h.begin_ hpid hnone⟩
  | @runs tx st s result hopen hfits hs hfault hrun hfree =>
    rw [h.view_eq hpid hopen] at hrun
    refine ⟨_, .runs (h.opened hpid hopen) hfits hrun ?_ (hrule tx st rfl hopen hfault), ?_⟩
    · intro tx' req' g' hne hopen' l hl
      exact h.free (hfree l hl) hne hopen'
    · rw [h.committed]
      refine h.set hpid hopen.1 ((g.after_tx st result).1.trans hopen.1) rfl
        (setSession_sessions _ _ _) ?_ (fun _ => rfl) ?_
      · obtain ⟨s', hs', hwrites⟩ := h.exists_session (h.opened hpid hopen)
        rw [hs] at hs'
        cases hs'
        simp [g.after_writes, hwrites]
      · rintro _ ⟨⟩ w hw l hl
        rw [List.mem_append] at hw ⊢
        rcases hw with hw | hw
        · exact .inl (h.held hs w hw l hl)
        · exact .inr (locks_of_write (Option.mem_toList.mp hw) l hl)
  | @ends tx _ hopen =>
    refine ⟨_, .ends tx, ?_⟩
    rw [h.committed]
    exact h.set hpid hopen.1 hopen.1 rfl (setSession_sessions _ _ _) rfl (fun hc => by cases hc)
      (fun s hs => by cases hs)
  | @commits tx hopen hcomplete hcleared =>
    refine ⟨_, .commits (h.opened hpid hopen) hcomplete hcleared, ?_⟩
    rw [← h.view_eq hpid hopen]
    exact h.set hpid hopen.1 hopen.1 rfl (setSession_sessions _ _ _) rfl (fun hc => by cases hc)
      (fun s hs => by cases hs)

end Track

/-- Transactions that run on rows of their own stay apart. -/
theorem Txns.apart_step {env : StoreEnv} {R : Txns.Rule} {x x' : Txns} (h : x.Apart)
    (hstep : Txns.Step env R x x') : x'.Apart := by
  cases hstep with
  | quiet => exact h
  | opens hnone =>
    intro tx₁ tx₂ req₁ req₂ g₁ g₂ hne h₁ h₂ w hw w' hw'
    rcases update_eq_some h₁ with ⟨rfl, heq⟩ | ⟨-, h₁'⟩
    · cases heq
      simp at hw
    · rcases update_eq_some h₂ with ⟨rfl, heq⟩ | ⟨-, h₂'⟩
      · cases heq
        simp at hw'
      · exact h hne h₁' h₂' w hw w' hw'
  | @runs tx req g st result clock hopen hfits hrun hfree hrule =>
    -- the rows of the statement's own write are free, as the statement has waited for them
    have hself {tx₂ req₂ g₂} (hne : tx ≠ tx₂) (h₂ : x.opened tx₂ = some (req₂, g₂)) :
        ∀ w ∈ (g.after st result).writes, ∀ w' ∈ g₂.writes, ∀ l ∈ w.locks, l ∉ w'.locks := by
      intro w hw w' hw' l hl
      rw [g.after_writes, List.mem_append, Option.mem_toList] at hw
      rcases hw with hw | hw
      · exact h hne hopen h₂ w hw w' hw' l hl
      · exact hfree tx₂ req₂ g₂ hne.symm h₂ l (needs_of_write hw l hl) w' hw'
    intro tx₁ tx₂ req₁ req₂ g₁ g₂ hne h₁ h₂ w hw w' hw' l hl
    rcases update_eq_some h₁ with ⟨rfl, heq⟩ | ⟨hne₁, h₁'⟩
    · cases heq
      rcases update_eq_some h₂ with ⟨rfl, -⟩ | ⟨-, h₂'⟩
      · exact absurd rfl hne
      · exact hself hne h₂' w hw w' hw' l hl
    · rcases update_eq_some h₂ with ⟨rfl, heq⟩ | ⟨-, h₂'⟩
      · cases heq
        exact fun hl' => hself hne.symm h₁' w' hw' w hw l hl' hl
      · exact h hne h₁' h₂' w hw w' hw' l hl
  | ends | commits =>
    intro tx₁ tx₂ req₁ req₂ g₁ g₂ hne h₁ h₂
    exact h hne (of_update_none h₁).2 (of_update_none h₂).2

/-- **The invariant rule of the transactions.** -/
theorem txns_induction {R : store.system.Config → store.system.Event → Prop} {Q : Txns.Rule}
    {P : Txns → Prop} (hinit : P ⟨.empty, fun _ => none⟩)
    (hstep : ∀ x x', x.Apart → P x → Txns.Step store.env Q x x' → P x')
    (hrule : ∀ c x pid p tx st k choice, Tracks c.world (works c) x → c.procs[pid]? = some p →
      p.program = .call (.exec tx st) k → choice.fault = none → R c (.act pid choice) →
      (work p).Open tx → Q x tx p.request st)
    (events : List store.system.Event) (hunblocked : System.Along Unblocked events)
    (halong : System.Along R events) :
    ∃ x, Tracks (store.system.run events).world (works (store.system.run events)) x ∧ P x := by
  have hrun : ∃ x, Tracks (store.system.run events).world (works (store.system.run events)) x ∧
      x.Apart ∧ P x := by
    refine pg_induction (P := fun c => ∃ x, Tracks c.world (works c) x ∧ x.Apart ∧ P x)
      ⟨_, tracks_initial, fun _ h => (by cases h), hinit⟩ ?_ ?_ events hunblocked halong
    · rintro c req ⟨x, htracks, hx⟩
      exact ⟨x, htracks.arrive fun i y hy => works_arrive hy, hx⟩
    · rintro c c' pid req g g' op choice ⟨x, htracks, hapart, hx⟩ hmoves
      obtain ⟨p, k, hp, rfl, hprog⟩ := hmoves.next
      have hg : work p = g := by
        have hbefore := hmoves.before
        rw [works, hp, Option.map_some] at hbefore
        exact (Prod.ext_iff.mp (Option.some.inj hbefore)).2
      obtain ⟨x', hx', htracks'⟩ := htracks.step hmoves.before hmoves.step (R := Q) (by
        rintro tx st rfl hopen hfault
        exact hrule c x pid p tx st k choice htracks hp hprog hfault hmoves.rule (hg ▸ hopen))
      have hworks : works c' = Function.update (works c) pid (some (p.request, g')) := by
        funext i
        rw [hmoves.after, Function.update_apply]
      rw [← hworks] at htracks'
      exact ⟨x', htracks', Txns.apart_step hapart hx', hstep x x' hapart hx hx'⟩
  obtain ⟨x, htracks, -, hx⟩ := hrun
  exact ⟨x, htracks, hx⟩

end Works

end Sysknife.Postgres
