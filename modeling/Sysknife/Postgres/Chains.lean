import Sysknife.Lib.Links
import Sysknife.Postgres.Races

/-!
# The chains do not fork

The rows of `transactions` and of `audit_events` are two chains: an insert numbers its row after
the newest one it has read and names its hash. Reading and inserting are two statements, so
several operations can read the same row; the unique key on the number lets only one of their
rows in. Both tables are treated as a `ChainedTable`, and in every interleaving what is committed,
and what each open transaction sees, is a chain (`no_fork`).
-/

namespace Sysknife.Postgres

open Audit Store

/-! ### Chained tables -/

/-- An event as a record of its chain. -/
def eventLink (r : EventRow) : Link String := ⟨r.seq, r.prevChainHash, r.chainHash⟩

/-- A transaction as a record of its chain. -/
def transactionLink (r : TransactionRow) : Link String := ⟨r.seq, r.prevChainHash, r.chainHash⟩

/-- A table whose rows form a chain, and how operations add to it. -/
structure ChainedTable where
  links : PgTables → List (Link String)
  added : Write → Option (Link String)
  /-- The newest record, as an operation has last read it. -/
  read : Work → Option (Option (Link String))
  lock : ℕ → Lock
  links_apply : ∀ s w, links (w.apply s) = links s ++ (added w).toList
  mem_locks : ∀ {w l}, added w = some l → lock l.seq ∈ w.locks
  read_begin : ∀ tx, read { tx := some tx } = none
  read_after : ∀ {env clock s g} {st : Statement} {result : st.Result} {p},
    st.run env clock s = .ok result → read (g.after st result) = some (some p) →
      read g = some (some p) ∨ p ∈ links s
  /-- A record that is added follows the one that was read, and its number was free. -/
  follows : ∀ {env clock s req g} {st : Statement} {result : st.Result} {w l},
    Fits req g st → st.run env clock s = .ok result → st.write result = some w →
      added w = some l →
      (∃ prev, read g = some prev ∧ l.seq = (prev.map Link.seq).getD 0 + 1 ∧
        l.prev = (prev.map Link.hash).getD "") ∧ ∀ l' ∈ links s, l'.seq ≠ l.seq

theorem mem_of_newest {α : Type} {seq : α → ℕ} {rows : List α} {r : α}
    (h : newest seq rows = some r) : r ∈ rows := by
  induction rows using List.reverseRecOn generalizing r with
  | nil => cases h
  | append_singleton rows r' ih =>
    rw [newest, List.foldl_append, List.foldl_cons, List.foldl_nil] at h
    split_ifs at h
    · exact List.mem_append_left _ (ih h)
    · simp [Option.some.inj h]

theorem links_of_follows {α : Type} {f : α → Link String} {seq : ℕ} {hash : String}
    {prev : Option α} (h : Follows seq hash (prev.map fun r => ((f r).seq, (f r).hash))) :
    seq = ((prev.map f).map Link.seq).getD 0 + 1 ∧
      hash = ((prev.map f).map Link.hash).getD "" := by
  obtain ⟨hseq, hhash⟩ := h
  cases prev <;> exact ⟨hseq, hhash⟩

/-- The chain of `audit_events`. -/
def eventChain : ChainedTable where
  links s := s.events.map eventLink
  added
    | .insertEvent row => some (eventLink row)
    | _ => none
  read g := g.eventTip.map fun tip => tip.map eventLink
  lock := .event
  links_apply s w := by cases w <;> simp [Write.apply]
  mem_locks {w l} h := by
    cases w with
    | insertEvent row =>
      cases h
      exact List.mem_singleton.mpr rfl
    | _ => cases h
  read_begin _ := rfl
  read_after {env clock s g st result p} hrun h := by
    cases st with
    | selectEventTip =>
      simp only [Statement.run, Except.ok.injEq] at hrun
      simp only [Work.after, Option.map_some, Option.some.injEq, Option.map_eq_some_iff] at h
      obtain ⟨row, hrow, rfl⟩ := h
      exact .inr (List.mem_map_of_mem (mem_of_newest (hrun.trans hrow)))
    | _ =>
      refine .inl ?_
      simp only [Work.after, Work.wrote] at h
      try split_ifs at h
      all_goals exact h
  follows {env clock s req g st result w l} hfits hrun hw hl := by
    obtain ⟨row, rfl, rfl⟩ : ∃ row, w = .insertEvent row ∧ eventLink row = l := by
      cases w <;> simp_all
    obtain rfl := of_write_insertEvent hw
    obtain ⟨prev, hprev, hfollows⟩ := hfits
    refine ⟨⟨prev.map eventLink, by rw [hprev, Option.map_some], links_of_follows hfollows⟩, ?_⟩
    intro l' hl' heq
    obtain ⟨row', hrow', rfl⟩ := List.mem_map.mp hl'
    simp only [Statement.run] at hrun
    split_ifs at hrun with hseq
    exact hseq (List.any_eq_true.mpr ⟨row', hrow', beq_iff_eq.mpr heq⟩)

/-- The chain of `transactions`. -/
def transactionChain : ChainedTable where
  links s := s.transactions.map transactionLink
  added
    | .insertTransaction row => some (transactionLink row)
    | _ => none
  read g := g.transactionTip.map fun tip => tip.map transactionLink
  lock := .transactionSeq
  links_apply s w := by
    cases w with
    | setStatus t status =>
      simp only [Write.apply, Table.updateWhere, List.map_map, Option.toList_none, List.append_nil]
      refine List.map_congr_left fun r _ => ?_
      simp only [Function.comp]
      split_ifs <;> rfl
    | _ => simp [Write.apply]
  mem_locks {w l} h := by
    cases w with
    | insertTransaction row =>
      cases h
      exact List.mem_cons_of_mem _ (List.mem_singleton.mpr rfl)
    | _ => cases h
  read_begin _ := rfl
  read_after {env clock s g st result p} hrun h := by
    cases st with
    | selectTransactionTip =>
      simp only [Statement.run, Except.ok.injEq] at hrun
      simp only [Work.after, Option.map_some, Option.some.injEq, Option.map_eq_some_iff] at h
      obtain ⟨row, hrow, rfl⟩ := h
      exact .inr (List.mem_map_of_mem (mem_of_newest (hrun.trans hrow)))
    | _ =>
      refine .inl ?_
      simp only [Work.after, Work.wrote] at h
      try split_ifs at h
      all_goals exact h
  follows {env clock s req g st result w l} hfits hrun hw hl := by
    obtain ⟨row, rfl, rfl⟩ : ∃ row, w = .insertTransaction row ∧ transactionLink row = l := by
      cases w <;> simp_all
    obtain rfl := of_write_insertTransaction hw
    obtain ⟨-, -, prev, hprev, hfollows⟩ := hfits
    refine ⟨⟨prev.map transactionLink, by rw [hprev, Option.map_some],
      links_of_follows hfollows⟩, ?_⟩
    intro l' hl' heq
    obtain ⟨row', hrow', rfl⟩ := List.mem_map.mp hl'
    simp only [Statement.run] at hrun
    split_ifs at hrun with hid hseq
    exact hseq (List.any_eq_true.mpr ⟨row', hrow', beq_iff_eq.mpr heq⟩)

/-! ### The invariant -/

section Forks

variable {K : ChainedTable} {x : Txns} {tx : TxId} {req : PgRequest} {g : Work}

theorem ChainedTable.links_writes (K : ChainedTable) (s : PgTables) (ws : List Write) :
    K.links (s.writes ws) = K.links s ++ ws.filterMap K.added := by
  induction ws using List.reverseRecOn with
  | nil => simp
  | append_singleton ws w ih =>
    rw [PgTables.writes_append, PgTables.writes_singleton, K.links_apply, ih, List.append_assoc]
    cases hw : K.added w <;> simp [hw]

/-- What is committed is a chain, and so is what each open transaction sees. -/
structure Unforked (K : ChainedTable) (x : Txns) : Prop where
  committed : Link.Linked "" (K.links x.committed)
  view : ∀ {tx req g}, x.opened tx = some (req, g) →
    Link.Linked "" (K.links (x.committed.writes g.writes))
  /-- The record that was read is still there. -/
  read : ∀ {tx req g p}, x.opened tx = some (req, g) → K.read g = some (some p) →
    p ∈ K.links (x.committed.writes g.writes)

theorem unforked_initial (h : K.links .empty = []) : Unforked K ⟨.empty, fun _ => none⟩ where
  committed := by
    rw [h]
    exact Link.linked_nil
  view hopen := by cases hopen
  read hopen := by cases hopen

theorem Unforked.opens (h : Unforked K x) :
    Unforked K ⟨x.committed, Function.update x.opened tx (some (req, { tx := some tx }))⟩ where
  committed := h.committed
  view hopen := by
    rcases update_eq_some hopen with ⟨rfl, heq⟩ | ⟨-, hopen⟩
    · cases heq
      exact h.committed
    · exact h.view hopen
  read hopen hread := by
    rcases update_eq_some hopen with ⟨rfl, heq⟩ | ⟨-, hopen⟩
    · cases heq
      rw [K.read_begin] at hread
      cases hread
    · exact h.read hopen hread

theorem Unforked.runs {env : StoreEnv} {clock : Clock} {st : Statement} {result : st.Result}
    (h : Unforked K x) (hopen : x.opened tx = some (req, g)) (hfits : Fits req g st)
    (hrun : st.run env clock (x.committed.writes g.writes) = .ok result) :
    Unforked K ⟨x.committed, Function.update x.opened tx (some (req, g.after st result))⟩ where
  committed := h.committed
  view hopen' := by
    rcases update_eq_some hopen' with ⟨rfl, heq⟩ | ⟨-, hopen'⟩
    · cases heq
      rw [g.after_writes, PgTables.writes_append, K.links_writes]
      cases hw : st.write result with
      | none => simpa using h.view hopen
      | some w =>
        cases hl : K.added w with
        | none => simpa [hl] using h.view hopen
        | some l =>
          obtain ⟨⟨prev, hread, hseq, hprev⟩, hfree⟩ := K.follows hfits hrun hw hl
          have hlinked := (h.view hopen).concat
            (fun p hp => h.read hopen (hp ▸ hread)) hseq hprev hfree
          simpa [hl] using hlinked
    · exact h.view hopen'
  read hopen' hread := by
    rcases update_eq_some hopen' with ⟨rfl, heq⟩ | ⟨-, hopen'⟩
    · cases heq
      rw [g.after_writes, PgTables.writes_append, K.links_writes]
      refine List.mem_append_left _ ?_
      rcases K.read_after hrun hread with hread | hread
      · exact h.read hopen hread
      · exact hread
    · exact h.read hopen' hread

/-- Two open transactions do not both add to the chain: their first records would have the same
number. -/
theorem Unforked.added_eq_nil (h : Unforked K x) (hapart : x.Apart) {tx' : TxId} {req' : PgRequest}
    {g' : Work} (hne : tx ≠ tx') (hopen : x.opened tx = some (req, g))
    (hopen' : x.opened tx' = some (req', g')) :
    g.writes.filterMap K.added = [] ∨ g'.writes.filterMap K.added = [] := by
  have hview := h.view hopen
  have hview' := h.view hopen'
  rw [K.links_writes] at hview hview'
  cases hls : g.writes.filterMap K.added with
  | nil => exact .inl rfl
  | cons l ls =>
    cases hls' : g'.writes.filterMap K.added with
    | nil => exact .inr rfl
    | cons l' ls' =>
      rw [hls] at hview
      rw [hls'] at hview'
      have hseq := hview.seq_head hview'
      obtain ⟨w, hw, hl⟩ := List.mem_filterMap.mp (hls ▸ List.mem_cons_self)
      obtain ⟨w', hw', hl'⟩ := List.mem_filterMap.mp (hls' ▸ List.mem_cons_self)
      exact absurd (hseq ▸ K.mem_locks hl')
        (hapart hne hopen hopen' w hw w' hw' (K.lock l.seq) (K.mem_locks hl))

theorem Unforked.commits (h : Unforked K x) (hapart : x.Apart)
    (hopen : x.opened tx = some (req, g)) :
    Unforked K ⟨x.committed.writes g.writes, Function.update x.opened tx none⟩ where
  committed := h.view hopen
  view {tx' req' g'} hopen' := by
    obtain ⟨hne, hopen'⟩ := of_update_none hopen'
    have hview := h.view hopen
    have hview' := h.view hopen'
    rw [K.links_writes] at hview hview'
    rw [K.links_writes, K.links_writes]
    rcases h.added_eq_nil hapart hne.symm hopen hopen' with hnil | hnil
    · rwa [hnil, List.append_nil]
    · rwa [hnil, List.append_nil]
  read hopen' hread := by
    have hmem := h.read (of_update_none hopen').2 hread
    rw [K.links_writes, List.mem_append] at hmem
    rw [K.links_writes, K.links_writes, List.mem_append, List.mem_append]
    exact hmem.imp .inl id

theorem Unforked.step {env : StoreEnv} {R : Txns.Rule} {x' : Txns} (hapart : x.Apart)
    (h : Unforked K x) (hstep : Txns.Step env R x x') : Unforked K x' := by
  cases hstep with
  | quiet => exact h
  | opens _ => exact h.opens
  | runs hopen hfits hrun _ _ => exact h.runs hopen hfits hrun
  | ends tx =>
    exact ⟨h.committed, fun hopen => h.view (of_update_none hopen).2,
      fun hopen => h.read (of_update_none hopen).2⟩
  | commits hopen _ _ => exact h.commits hapart hopen

/-- **Neither chain forks.** In every interleaving of the operations, the committed rows of each
table are numbered from one without a gap, and each names the hash of the row before it. -/
theorem no_fork {store : PgStore} (events : List store.system.Event)
    (hunblocked : System.Along Unblocked events) :
    Link.Linked "" ((store.system.run events).world.committed.events.map eventLink) ∧
      Link.Linked ""
        ((store.system.run events).world.committed.transactions.map transactionLink) := by
  obtain ⟨x, htracks, hevents, htransactions⟩ := txns_induction (R := fun _ _ => True)
    (Q := fun _ _ _ _ => True) (P := fun x => Unforked eventChain x ∧ Unforked transactionChain x)
    ⟨unforked_initial rfl, unforked_initial rfl⟩
    (fun x x' hapart hx hstep => ⟨hx.1.step hapart hstep, hx.2.step hapart hstep⟩)
    (fun _ _ _ _ _ _ _ _ _ _ _ _ _ _ => trivial) events hunblocked fun _ _ _ _ => trivial
  rw [← htracks.committed]
  exact ⟨hevents.committed, htransactions.committed⟩

end Forks

/-! ### A sample run -/

/-- Two operations read the same newest transaction; the one that inserts second waits for the
first and is refused. -/
def racingInserts : List sampleStore.system.Event :=
  .arrive (.record "tx-1" ⟨"req-1", "h1", "UpdateSystem", .high, "Update", [], .admin,
    .uid 1000⟩) ::
    .arrive (.record "tx-2" ⟨"req-2", "h2", "StartService", .low, "Start", [], .dev, .uid 1001⟩) ::
    acts 0 4 ++ acts 1 4 ++ acts 0 2 ++ acts 1 1 ++
    .arrive (.record "tx-3" ⟨"req-3", "h3", "StopService", .low, "Stop", [], .dev, .uid 1001⟩) ::
      acts 2 7

/-- Of the two only one is committed, and the chain goes on from it. -/
theorem racingInserts_linked :
    ((sampleStore.system.run racingInserts).world.committed.transactions.map fun r =>
      (r.seq, r.transactionId)) = [(1, "tx-1"), (2, "tx-3")] ∧
    Link.Linked "" ((sampleStore.system.run racingInserts).world.committed.transactions.map
      transactionLink) :=
  ⟨by decide +kernel,
    (no_fork racingInserts
      (System.along_of_check unblocked_of_isUnblocked (by decide +kernel))).2⟩

end Sysknife.Postgres
