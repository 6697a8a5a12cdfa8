import Sysknife.Store.Lifecycle

/-!
# Failing what was left running

At its start the daemon fails the transactions a previous one left running. The loop asks for the
newest hundred running transactions, fails each of them, and asks again, so the pages it reads
are of a table its own writes change.

What a page of writes leaves is `FailedOn`: the listed transactions have failed, each with one
event, and everything else is as it was. A page takes its transactions out of the list of running
ones (`runningIds_failedOn`), so the next page begins where the last one ended, and the loop ends
after as many rounds as there are pages (`reconcilePages_eq`).
-/

namespace Sysknife.Store

open Audit

variable {env : StoreEnv} {clock : Clock} {s s₁ s₂ : Tables}

/-- The identifiers of all running transactions, newest first. -/
def Tables.runningIds (s : Tables) : List String :=
  (s.transactions.reverse.filter (·.status == .running)).map (·.transactionId)

theorem runningPage_eq (s : Tables) : s.runningPage = s.runningIds.take 100 :=
  List.map_take.symm ▸ rfl

/-- A transaction that is failed if it is listed. -/
def failIfListed (ids : List String) (r : TransactionRow) : TransactionRow :=
  if r.transactionId ∈ ids then { r with status := .failed } else r

/-- The listed transactions have failed, each with one event, in the order of the list. -/
structure FailedOn (ids : List String) (s s' : Tables) : Prop where
  transactions : s'.transactions = s.transactions.map (failIfListed ids)
  previews : s'.previews = s.previews
  approvals : s'.approvals = s.approvals
  events : ∃ added, s'.events = s.events ++ added ∧
    added.map (fun e => (e.kind, e.transactionId)) =
      ids.map fun id => (AuditEventKind.statusFailed.asStr, id)

/-- Identifiers are a primary key. -/
abbrev Tables.KeyedById (s : Tables) : Prop :=
  Table.UniqueKey (fun r : TransactionRow => r.transactionId) s.transactions

/-! ### Listed transactions -/

@[simp] theorem transactionId_failIfListed (ids : List String) (r : TransactionRow) :
    (failIfListed ids r).transactionId = r.transactionId := by
  unfold failIfListed
  split_ifs
  · rfl
  · rfl

theorem failIfListed_append (ids ids' : List String) (r : TransactionRow) :
    failIfListed ids' (failIfListed ids r) = failIfListed (ids ++ ids') r := by
  by_cases hid : r.transactionId ∈ ids
  · by_cases hid' : r.transactionId ∈ ids'
    · simp [failIfListed, hid, hid']
    · simp [failIfListed, hid, hid']
  · by_cases hid' : r.transactionId ∈ ids'
    · simp [failIfListed, hid, hid']
    · simp [failIfListed, hid, hid']

/-- A listed transaction no longer runs, and no other one starts to. -/
theorem running_failIfListed (ids : List String) (r : TransactionRow) :
    ((failIfListed ids r).status == .running) =
      (decide (r.transactionId ∉ ids) && r.status == .running) := by
  by_cases hid : r.transactionId ∈ ids
  · simp [failIfListed, hid]
  · simp [failIfListed, hid]

namespace FailedOn

variable {ids ids' : List String}

theorem refl (s : Tables) : FailedOn [] s s where
  transactions := by
    have hid : failIfListed [] = id := by
      funext r
      simp [failIfListed]
    rw [hid, List.map_id]
  previews := rfl
  approvals := rfl
  events := ⟨[], by simp, rfl⟩

theorem trans (h : FailedOn ids s s₁) (h' : FailedOn ids' s₁ s₂) :
    FailedOn (ids ++ ids') s s₂ where
  transactions := by
    have hrow : failIfListed ids' ∘ failIfListed ids = failIfListed (ids ++ ids') :=
      funext (failIfListed_append ids ids')
    rw [h'.transactions, h.transactions, List.map_map, hrow]
  previews := h'.previews.trans h.previews
  approvals := h'.approvals.trans h.approvals
  events := by
    obtain ⟨added, hevents, hadded⟩ := h.events
    obtain ⟨added', hevents', hadded'⟩ := h'.events
    refine ⟨added ++ added', ?_, ?_⟩
    · rw [hevents', hevents, List.append_assoc]
    · rw [List.map_append, List.map_append, hadded, hadded']

theorem keyedById (h : FailedOn ids s s₁) (hs : s.KeyedById) : s₁.KeyedById := by
  have hkeys : s₁.transactions.map (·.transactionId) = s.transactions.map (·.transactionId) := by
    rw [h.transactions, List.map_map]
    exact List.map_congr_left fun r _ => transactionId_failIfListed ids r
  rw [Tables.KeyedById, Table.UniqueKey, hkeys]
  exact hs

/-- The running transactions that are left are those that were not listed. -/
theorem runningIds_eq (h : FailedOn ids s s₁) :
    s₁.runningIds = s.runningIds.filter fun id => decide (id ∉ ids) := by
  have hrunning : ((fun r : TransactionRow => r.status == .running) ∘ failIfListed ids) =
      fun r => decide (r.transactionId ∉ ids) && r.status == .running :=
    funext (running_failIfListed ids)
  have hid : ((fun r : TransactionRow => r.transactionId) ∘ failIfListed ids) =
      fun r => r.transactionId :=
    funext (transactionId_failIfListed ids)
  rw [Tables.runningIds, Tables.runningIds, h.transactions, ← List.map_reverse, List.filter_map,
    List.map_map, hrunning, hid, List.filter_map, List.filter_filter]
  rfl

end FailedOn

/-! ### One page -/

/-- Without its first elements, a list without repetitions is what comes after them. -/
theorem filter_notMem_take {α : Type} [DecidableEq α] {l : List α} (h : l.Nodup) (n : ℕ) :
    (l.filter fun a => decide (a ∉ l.take n)) = l.drop n := by
  have hdisjoint : ∀ a ∈ l.drop n, a ∉ l.take n := fun a hdrop htake =>
    List.disjoint_take_drop h (le_refl n) htake hdrop
  have htake : ((l.take n).filter fun a => decide (a ∉ l.take n)) = [] :=
    List.filter_eq_nil_iff.mpr fun a ha => by simpa using ha
  have hdrop : ((l.drop n).filter fun a => decide (a ∉ l.take n)) = l.drop n :=
    List.filter_eq_self.mpr fun a ha => by simpa using hdisjoint a ha
  calc (l.filter fun a => decide (a ∉ l.take n))
      = ((l.take n ++ l.drop n).filter fun a => decide (a ∉ l.take n)) := by
        rw [List.take_append_drop]
    _ = l.drop n := by rw [List.filter_append, htake, hdrop, List.nil_append]

theorem mem_runningIds {id : String} : id ∈ s.runningIds ↔
    ∃ row ∈ s.transactions, row.status = .running ∧ row.transactionId = id := by
  simp [Tables.runningIds, and_assoc]

theorem nodup_runningIds (hs : s.KeyedById) : s.runningIds.Nodup := by
  have hsub : (s.runningIds).Sublist (s.transactions.reverse.map (·.transactionId)) :=
    List.filter_sublist.map _
  refine List.Nodup.sublist hsub ?_
  rw [List.map_reverse]
  exact List.nodup_reverse.mpr hs

section Writing

variable (clock) {key : AuditKey} (hkey : env.auditKey = some key)

include hkey

/-- A running transaction is failed by one write. -/
theorem updateStatus_running (hs : s.KeyedById) {id : String} (hid : id ∈ s.runningIds) :
    ∃ s', updateStatus env clock id .failed s = .ok ((), s') ∧ FailedOn [id] s s' := by
  obtain ⟨row, hrow, hrunning, rfl⟩ := mem_runningIds.mp hid
  have hfind : s.findTransaction row.transactionId = some row := Table.lookup_of_mem hs hrow rfl
  -- the key pins the condition of the write to this row
  have hpinned (r : TransactionRow) (hr : r ∈ s.transactions) :
      (r.transactionId == row.transactionId && r.status == .running) =
        decide (r.transactionId ∈ [row.transactionId]) := by
    by_cases heq : r.transactionId = row.transactionId
    · have hsame : some r = some row := (Table.lookup_of_mem hs hr heq).symm.trans hfind
      obtain rfl := Option.some.inj hsame
      simp [hrunning]
    · simp [heq]
  have hcount : (s.transactions.countP fun r =>
      r.transactionId == row.transactionId && r.status == .running) ≠ 0 := by
    refine Nat.pos_iff_ne_zero.mp (List.countP_pos_iff.mpr ⟨row, hrow, ?_⟩)
    simp [hrunning]
  let moved := (s.setStatusWhere
    (fun r => r.transactionId == row.transactionId && r.status == .running) .failed).2
  refine ⟨appendEvent clock key (.ofJobState .failed) row.transactionId "" .legacyV1 moved, ?_, ?_⟩
  · unfold updateStatus
    rw [hfind]
    simp only [hrunning]
    rw [if_neg (by decide)]
    simp only [Tables.setStatusWhere, Table.updateWhere]
    rw [if_neg hcount, requireKey, hkey]
    rfl
  · refine ⟨?_, rfl, rfl, ⟨_, rfl, rfl⟩⟩
    refine List.map_congr_left fun r hr => ?_
    simp only [hpinned r hr, failIfListed, decide_eq_true_eq]

/-- A list of running transactions is failed, one after the other. -/
theorem failEach_running {ids : List String} (hs : s.KeyedById) (hnodup : ids.Nodup)
    (hids : ∀ id ∈ ids, id ∈ s.runningIds) :
    ∃ s', failEach env clock ids s = (.ok (), s') ∧ FailedOn ids s s' := by
  induction ids generalizing s with
  | nil => exact ⟨s, rfl, .refl s⟩
  | cons id ids ih =>
    obtain ⟨hid, hnodup⟩ := List.nodup_cons.mp hnodup
    obtain ⟨s₁, hupdate, hfailed⟩ :=
      updateStatus_running clock hkey hs (hids id List.mem_cons_self)
    have hrest (id' : String) (hid' : id' ∈ ids) : id' ∈ s₁.runningIds := by
      have hne : id' ≠ id := fun heq => hid (heq ▸ hid')
      rw [hfailed.runningIds_eq, List.mem_filter]
      exact ⟨hids id' (List.mem_cons_of_mem id hid'), by simpa using hne⟩
    obtain ⟨s₂, heach, hfailed'⟩ := ih (hfailed.keyedById hs) hnodup hrest
    refine ⟨s₂, ?_, hfailed.trans hfailed'⟩
    rw [failEach, hupdate]
    exact heach

/-! ### All pages -/

/-- **The paging loop.** Given a round for every running transaction and one to spare, it fails
all of them and counts them; more rounds make no difference. -/
theorem reconcilePages_eq (total : ℕ) (hs : s.KeyedById) :
    ∃ s', FailedOn s.runningIds s s' ∧ ∀ rounds, s.runningIds.length < rounds →
      reconcilePages env clock rounds total s = (.ok (total + s.runningIds.length), s') := by
  induction hn : s.runningIds.length using Nat.strongRecOn generalizing s total with
  | ind n ih =>
    obtain ⟨s₁, heach, hfailed⟩ := failEach_running clock hkey hs
      ((nodup_runningIds hs).sublist (List.take_sublist 100 s.runningIds))
      fun id hid => List.mem_of_mem_take hid
    -- one round: nothing to do, a short page, or a full page and the rounds after it
    have hround (rounds : ℕ) : reconcilePages env clock (rounds + 1) total s =
        if s.runningIds.isEmpty then (.ok total, s)
        else if min 100 n < 100 then (.ok (total + min 100 n), s₁)
        else reconcilePages env clock rounds (total + min 100 n) s₁ := by
      have hempty : (s.runningIds.take 100).isEmpty = s.runningIds.isEmpty := by
        cases s.runningIds with
        | nil => rfl
        | cons id ids => rfl
      rw [reconcilePages, runningPage_eq]
      simp only [hempty, heach, List.length_take, hn]
    by_cases hnone : n = 0
    · have hids : s.runningIds = [] := List.length_eq_zero_iff.mp (hn.trans hnone)
      refine ⟨s, hids ▸ .refl s, fun rounds hrounds => ?_⟩
      obtain ⟨rounds, rfl⟩ : ∃ k, rounds = k + 1 := ⟨rounds - 1, by omega⟩
      rw [hround, hids, hnone]
      rfl
    have hsome : s.runningIds.isEmpty = false := by
      rw [List.isEmpty_eq_false_iff, ← List.length_pos_iff, hn]
      omega
    by_cases hshort : n < 100
    · -- a short page is the last one
      have hall : s.runningIds.take 100 = s.runningIds := List.take_of_length_le (by omega)
      have hmin : min 100 n = n := by omega
      rw [hall] at hfailed
      refine ⟨s₁, hfailed, fun rounds hrounds => ?_⟩
      obtain ⟨rounds, rfl⟩ : ∃ k, rounds = k + 1 := ⟨rounds - 1, by omega⟩
      rw [hround, hsome, hmin, if_pos hshort]
      rfl
    · -- a full page leaves the rest of the list
      have hmin : min 100 n = 100 := by omega
      have hrest : s₁.runningIds = s.runningIds.drop 100 := by
        rw [hfailed.runningIds_eq]
        exact filter_notMem_take (nodup_runningIds hs) 100
      have hlen : s₁.runningIds.length = n - 100 := by rw [hrest, List.length_drop, hn]
      obtain ⟨s₂, hfailed', hlater⟩ := ih (n - 100) (by omega) (total + 100)
        (hfailed.keyedById hs) hlen
      have hboth := hfailed.trans hfailed'
      rw [hrest, List.take_append_drop] at hboth
      refine ⟨s₂, hboth, fun rounds hrounds => ?_⟩
      obtain ⟨rounds, rfl⟩ : ∃ k, rounds = k + 1 := ⟨rounds - 1, by omega⟩
      have htotal : total + 100 + (n - 100) = total + n := by omega
      rw [hround, hsome, hmin, if_neg (by simp), if_neg (by omega), hlater rounds (by omega),
        htotal]

end Writing

/-- **What a previous daemon left running has failed.** The loop ends, whatever the number of
rounds it is given beyond the number of rows; no transaction runs afterwards; those that ran have
failed, with one event each, and are counted; nothing else differs. -/
theorem reconcile_interrupted (env : StoreEnv) (clock : Clock) (key : AuditKey) (s : Tables)
    (hkey : env.auditKey = some key) (hs : s.KeyedById) :
    ∃ s', reconcileInterruptedRunning env clock s =
        (.ok (s.transactions.countP (·.status == .running)), s') ∧
      (∀ rounds, s.transactions.length < rounds →
        reconcilePages env clock rounds 0 s = reconcileInterruptedRunning env clock s) ∧
      (∀ r ∈ s'.transactions, r.status ≠ .running) ∧
      s'.transactions = s.transactions.map
        (fun r => if r.status = .running then { r with status := .failed } else r) ∧
      (∃ added, s'.events = s.events ++ added ∧
        added.map (fun e => (e.kind, e.transactionId)) =
          s.runningIds.map fun id => (AuditEventKind.statusFailed.asStr, id)) ∧
      s'.previews = s.previews ∧ s'.approvals = s.approvals := by
  have hlength : s.runningIds.length = s.transactions.countP (·.status == .running) := by
    rw [Tables.runningIds, List.length_map, ← List.countP_eq_length_filter, List.countP_reverse]
  have hle : s.runningIds.length ≤ s.transactions.length := hlength ▸ List.countP_le_length
  obtain ⟨s', hfailed, hloop⟩ := reconcilePages_eq clock hkey 0 hs
  rw [Nat.zero_add, hlength] at hloop
  have hrounds (rounds : ℕ) (h : s.transactions.length < rounds) :=
    hloop rounds (by omega)
  -- being listed and running is one thing
  have hrow (r : TransactionRow) (hr : r ∈ s.transactions) : failIfListed s.runningIds r =
      if r.status = .running then { r with status := .failed } else r := by
    by_cases hrunning : r.status = .running
    · rw [failIfListed, if_pos (mem_runningIds.mpr ⟨r, hr, hrunning, rfl⟩), if_pos hrunning]
    · have hnot : r.transactionId ∉ s.runningIds := by
        intro hmem
        obtain ⟨row, hrow, hrun, hid⟩ := mem_runningIds.mp hmem
        have hsame : some row = some r :=
          (Table.lookup_of_mem hs hrow hid).symm.trans (Table.lookup_of_mem hs hr rfl)
        exact hrunning (Option.some.inj hsame ▸ hrun)
      rw [failIfListed, if_neg hnot, if_neg hrunning]
  have htable := hfailed.transactions.trans (List.map_congr_left hrow)
  have hreconcile := hrounds (s.transactions.length + 1) (Nat.lt_succ_self _)
  refine ⟨s', hreconcile, fun rounds h => (hrounds rounds h).trans hreconcile.symm, ?_, htable,
    hfailed.events, hfailed.previews, hfailed.approvals⟩
  intro r hr
  rw [htable] at hr
  obtain ⟨r', -, rfl⟩ := List.mem_map.mp hr
  split_ifs with hrunning
  · simp
  · exact hrunning

theorem reconcile_interrupted_sample : ∃ s',
    reconcileInterruptedRunning sampleEnv sampleClock (run sampleEnv sampleOps) =
      (.ok ((run sampleEnv sampleOps).transactions.countP (·.status == .running)), s') ∧
      ∀ r ∈ s'.transactions, r.status ≠ .running := by
  obtain ⟨s', h, -, hrunning, -⟩ := reconcile_interrupted sampleEnv sampleClock Audit.sampleKey
    (run sampleEnv sampleOps) rfl (lives_run sampleEnv sampleOps).keyed.transactions
  exact ⟨s', h, hrunning⟩

end Sysknife.Store
