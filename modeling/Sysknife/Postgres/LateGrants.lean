import Sysknife.Postgres.Races

/-!
# An approval against a change of status

`approveTransaction` reads the transaction in its `INSERT … SELECT` without locking it. So another
operation can move the transaction out of `Queued` while the approval is on its way: the grant is
then recorded after the change, and the approval stays with a transaction that has ended
(`approveAfterCancel`). It is enough that approvals are inserted as if the row had been locked,
and that `updateStatus` is not used on a transaction with an unspent approval (`GrantsAlone`,
`no_late_grant`).
-/

namespace Sysknife.Postgres

open Audit Store

/-! ### The condition -/

namespace Write

/-- The write changes the status of the transaction. -/
def setsStatus (t : String) : Write → Bool
  | .setStatus t' _ => t' == t
  | _ => false

/-- The write inserts an approval of the transaction. -/
def grants (t : String) : Write → Bool
  | .insertApproval row => row.transactionId == t
  | _ => false

theorem grants_of_Grants {t : String} {w : Write} (h : w.Grants t) : w.grants t = true := by
  obtain ⟨row, rfl, rfl⟩ := h
  simp [grants]

end Write

namespace Db

variable (db : Db) (tx : TxId)

/-- Another open transaction has made such a write. -/
def writtenByOther (p : Write → Bool) : Bool :=
  (List.range db.nextTx).any fun tx' =>
    tx' != tx && (db.sessions tx').any fun session => session.writes.any p

/-- An approval is inserted for a queued transaction whose status nobody is changing; a status is
changed when nobody is inserting an approval, and `updateStatus` leaves no unspent one behind. -/
def grantsAlone : Statement → Bool
  | .insertApproval row => ((db.view tx).approvals row.transactionId).isSome ||
      (db.committed.statusOf row.transactionId == some .queued &&
        !db.writtenByOther tx (Write.setsStatus row.transactionId))
  | .updateQueued t _ => !db.writtenByOther tx (Write.grants t)
  | .updateStatus t _ => !db.writtenByOther tx (Write.grants t) &&
      (db.committed.statusOf t != some .queued || (db.committed.unconsumed t).isNone)
  | _ => true

end Db

/-- The event records a change of status. -/
def IsStatus (k : String) : Prop := ∃ st, k = (AuditEventKind.ofJobState st).asStr

section Grants

variable {store : PgStore}

/-- Every statement of the run meets the condition. -/
def GrantsAlone (c : store.system.Config) : store.system.Event → Prop
  | .arrive _ => True
  | .act pid choice => ∀ (p : store.system.Process) tx st k, c.procs[pid]? = some p →
      p.program = .call (.exec tx st) k → choice.fault = none → c.world.grantsAlone tx st = true

/-- The same about the open transactions. -/
def Txns.GrantsAlone (x : Txns) (tx : TxId) (_ : PgRequest) : Statement → Prop
  | .insertApproval row => ∀ req g, x.opened tx = some (req, g) →
      (x.committed.writes g.writes).approvals row.transactionId = none →
      x.committed.statusOf row.transactionId = some .queued ∧
        ∀ tx' req' g', tx' ≠ tx → x.opened tx' = some (req', g') →
          ∀ st, .setStatus row.transactionId st ∉ g'.writes
  | .updateQueued t _ => ∀ tx' req' g', tx' ≠ tx → x.opened tx' = some (req', g') →
      ∀ w ∈ g'.writes, ¬ w.Grants t
  | .updateStatus t _ =>
      (∀ tx' req' g', tx' ≠ tx → x.opened tx' = some (req', g') → ∀ w ∈ g'.writes, ¬ w.Grants t) ∧
        (x.committed.statusOf t = some .queued → x.committed.unconsumed t = none)
  | _ => True

/-! ### The invariant -/

/-- What an open transaction has done, on what is committed. -/
structure Careful (s : PgTables) (req : PgRequest) (g : Work) : Prop where
  /-- An approval is on its way only to a queued transaction. -/
  grants : ∀ {t w}, w ∈ g.writes → w.Grants t → s.statusOf t = some .queued
  /-- A transaction whose status was set is there. -/
  sets : ∀ {t st}, .setStatus t st ∈ g.writes → (s.findTransaction t).isSome
  /-- A row that was selected `FOR UPDATE` is there. -/
  found : ∀ {t}, t ∈ g.found → ((s.writes g.writes).findTransaction t).isSome
  kept : g.lost = false
  /-- When the status was set and the approval looked after, none is left. -/
  settled : ∀ {t st}, .setStatus t st ∈ g.writes →
    (t ∈ g.cleared ∨ ∃ new, req = .updateStatus t new) →
    s.unconsumed t = none ∨ ∃ w ∈ g.writes, w.Ends t

/-- In what is committed, grants come before changes of status. -/
structure Ordered (s : PgTables) : Prop where
  rows : ∀ t, (s.unconsumed t).isSome → s.statusOf t = some .queued
  unmoved : ∀ t, (∀ st, s.statusOf t = some st → st = .queued) →
    ∀ k ∈ s.historyOf t, ¬ IsStatus k
  late : ∀ t, (s.historyOf t).Pairwise fun a b =>
    IsStatus a → b ≠ AuditEventKind.approvalGranted.asStr

structure Granting (x : Txns) : Prop where
  ordered : Ordered x.committed
  careful : ∀ {tx req g}, x.opened tx = some (req, g) → Careful x.committed req g
  /-- Nobody changes the status of a transaction that an approval is on its way to. -/
  alone : ∀ {tx tx' req req' g g'}, x.opened tx = some (req, g) → x.opened tx' = some (req', g') →
    ∀ {t w st}, w ∈ g.writes → w.Grants t → .setStatus t st ∉ g'.writes

theorem ordered_empty : Ordered .empty where
  rows t h := by cases h
  unmoved t _ k hk := by cases hk
  late t := List.Pairwise.nil

theorem granting_initial : Granting ⟨.empty, fun _ => none⟩ where
  ordered := ordered_empty
  careful h := by cases h
  alone h := by cases h

theorem careful_begin (s : PgTables) (req : PgRequest) (tx : TxId) :
    Careful s req { tx := some tx } where
  grants hw := by simp at hw
  sets hmem := by simp at hmem
  found hmem := by simp at hmem
  kept := rfl
  settled hmem := by simp at hmem

/-! ### Statements -/

section Runs

variable {env : StoreEnv} {clock : Clock} {x : Txns} {tx : TxId} {req : PgRequest} {g : Work}
  {st : Statement} {result : st.Result}

/-- The approval was looked for, and there is none. -/
theorem Careful.ends_of_none {s : PgTables} {t : String} (hgrants : ∀ w ∈ g.writes, ¬ w.Grants t)
    (hnone : (s.writes g.writes).unconsumed t = none) :
    s.unconsumed t = none ∨ ∃ w ∈ g.writes, w.Ends t := by
  by_cases hends : ∃ w ∈ g.writes, w.Ends t
  · exact .inr hends
  · push Not at hends
    have hfree : ∀ w ∈ g.writes, .approval t ∉ w.locks := fun w hw hl =>
      (grants_or_ends hl).elim (hgrants w hw) (hends w hw)
    rw [unconsumed_eq_of_approvals (approvals_writes _ hfree)] at hnone
    exact .inl hnone

/-- No row was changed, as there was none. -/
theorem none_of_not_pos {s : PgTables} {t : String} {n : ℕ}
    (hrun : (if (s.unconsumed t).isSome then 1 else 0) = n) (hpos : ¬ 0 < n) :
    s.unconsumed t = none := by
  by_contra hsome
  rw [if_pos (Option.isSome_iff_ne_none.mpr hsome)] at hrun
  omega

/-- An operation looks after an approval by searching for it or by ending it. -/
theorem cleared_after {s : PgTables} (hrun : st.run env clock s = .ok result) {t : String}
    (h : t ∈ (g.after st result).cleared) :
    t ∈ g.cleared ∨ s.unconsumed t = none ∨ ∃ w, st.write result = some w ∧ w.Ends t := by
  cases st with
  | findUnconsumed t' =>
    simp only [Statement.run, Except.ok.injEq] at hrun
    simp only [Work.after] at h
    split_ifs at h with hfound
    · exact .inl h
    · rw [List.mem_cons] at h
      rcases h with rfl | h
      · refine .inr (.inl ?_)
        rw [← hrun] at hfound
        simpa using hfound
      · exact .inl h
  | consumeApproval t' at_ =>
    simp only [Statement.run, Except.ok.injEq] at hrun
    simp only [Work.after] at h
    split_ifs at h with hpos
    · rw [List.mem_cons] at h
      rcases h with rfl | h
      · exact .inr (.inr ⟨_, by rw [Statement.write, if_pos hpos], .inr ⟨at_, rfl⟩⟩)
      · exact .inl h
    · rw [List.mem_cons] at h
      rcases h with rfl | h
      · exact .inr (.inl (none_of_not_pos hrun hpos))
      · exact .inl h
  | deleteApproval t' =>
    simp only [Statement.run, Except.ok.injEq] at hrun
    simp only [Work.after] at h
    split_ifs at h with hpos
    · rw [List.mem_cons] at h
      rcases h with rfl | h
      · exact .inr (.inr ⟨_, by rw [Statement.write, if_pos hpos], .inl rfl⟩)
      · exact .inl h
    · rw [List.mem_cons] at h
      rcases h with rfl | h
      · exact .inr (.inl (none_of_not_pos hrun hpos))
      · exact .inl h
  | _ =>
    refine .inl ?_
    simp only [Work.after, Work.wrote] at h
    try split_ifs at h
    all_goals exact h

theorem found_after {s : PgTables} (hrun : st.run env clock s = .ok result) {t : String}
    (h : t ∈ (g.after st result).found) : t ∈ g.found ∨ (s.findTransaction t).isSome := by
  cases st with
  | lockTransaction t' =>
    simp only [Statement.run, Except.ok.injEq] at hrun
    simp only [Work.after] at h
    split_ifs at h with hsome
    · rw [List.mem_cons] at h
      rcases h with rfl | h
      · rw [← hrun, PgTables.statusOf, Option.isSome_map] at hsome
        exact .inr hsome
      · exact .inl h
    · exact .inl h
  | _ =>
    refine .inl ?_
    simp only [Work.after, Work.wrote] at h
    try split_ifs at h
    all_goals exact h

/-- A row that is there is not lost. -/
theorem lost_after {s : PgTables} (hrun : st.run env clock s = .ok result)
    (hfound : ∀ t new, st = .updateStatus t new → (s.findTransaction t).isSome) :
    (g.after st result).lost = g.lost := by
  cases st with
  | updateStatus t new =>
    simp only [Statement.run, Except.ok.injEq, hfound t new rfl, if_true] at hrun
    simp [Work.after, ← hrun, Work.wrote]
  | _ =>
    simp only [Work.after, Work.wrote]
    try split_ifs
    all_goals rfl

/-- The statement of one transaction, on the rules of all. -/
theorem Granting.careful_after (h : Granting x) (hopen : x.opened tx = some (req, g))
    (hfits : Fits req g st) (hrun : st.run env clock (x.committed.writes g.writes) = .ok result)
    (hrule : x.GrantsAlone tx req st) : Careful x.committed req (g.after st result) := by
  have hg := h.careful hopen
  refine ⟨fun {t w} hw hgrants => ?_, fun {t st'} hmem => ?_, fun {t} hmem => ?_, ?_,
    fun {t st'} hmem hcleared => ?_⟩
  · rw [g.after_writes, List.mem_append, Option.mem_toList] at hw
    rcases hw with hw | hw
    · exact hg.grants hw hgrants
    · obtain ⟨row, rfl, rfl⟩ := hgrants
      obtain ⟨rfl, hnone⟩ := of_write_insertApproval hrun hw
      exact (hrule req g hopen hnone).1
  · rw [g.after_writes, List.mem_append, Option.mem_toList] at hmem
    rcases hmem with hmem | hmem
    · exact hg.sets hmem
    · obtain ⟨hst, hfound⟩ := of_write_setStatus hrun hmem
      rw [isSome_findTransaction_writes_iff] at hfound
      rcases hfound with hfound | ⟨row, hrow, -⟩
      · exact hfound
      · rcases hst with rfl | rfl
        · exact absurd hrow (hfits.2.2.1 row)
        · rw [hfits.2.1] at hrow
          cases hrow
  · rw [g.after_writes, PgTables.writes_append]
    apply isSome_findTransaction_writes
    rcases found_after hrun hmem with hmem | hsome
    · exact hg.found hmem
    · exact hsome
  · rw [lost_after hrun fun t new heq => ?_]
    · exact hg.kept
    · subst heq
      exact hg.found hfits.2.2.1
  · -- in all cases the transaction has inserted no approval of its own
    have hends (hgrants : ∀ w ∈ g.writes, ¬ w.Grants t)
        (hold : t ∈ g.cleared → x.committed.unconsumed t = none ∨ ∃ w ∈ g.writes, w.Ends t)
        (hcleared : t ∈ (g.after st result).cleared) :
        x.committed.unconsumed t = none ∨ ∃ w ∈ (g.after st result).writes, w.Ends t := by
      rw [g.after_writes]
      have hmono (h : x.committed.unconsumed t = none ∨ ∃ w ∈ g.writes, w.Ends t) :
          x.committed.unconsumed t = none ∨
            ∃ w ∈ g.writes ++ (st.write result).toList, w.Ends t :=
        h.imp id fun ⟨w, hw, hend⟩ => ⟨w, List.mem_append_left _ hw, hend⟩
      rcases cleared_after hrun hcleared with hcleared | hnone | ⟨w, hw, hend⟩
      · exact hmono (hold hcleared)
      · exact hmono (Careful.ends_of_none hgrants hnone)
      · exact .inr ⟨w, by simp [hw], hend⟩
    rw [g.after_writes, List.mem_append, Option.mem_toList] at hmem
    rcases hmem with hmem | hmem
    · rcases hcleared with hcleared | hreq
      · exact hends (fun w hw hgrants => h.alone hopen hopen hw hgrants hmem)
          (fun hold => hg.settled hmem (.inl hold)) hcleared
      · rw [g.after_writes]
        exact (hg.settled hmem (.inr hreq)).imp id
          fun ⟨w, hw, hend⟩ => ⟨w, List.mem_append_left _ hw, hend⟩
    · obtain ⟨rfl | rfl, -⟩ := of_write_setStatus hrun hmem
      · obtain ⟨-, happroval, -, hmoved, hreq⟩ := hfits
        rcases hcleared with hcleared | ⟨new, hnew⟩
        · refine hends (fun w hw hgrants => ?_) (fun hold => ?_) hcleared
          · obtain ⟨row, rfl, -⟩ := hgrants
            exact happroval row hw
          · obtain ⟨st₀, hst₀⟩ := hmoved hold
            exact hg.settled hst₀ (.inl hold)
        · exact absurd hnew (hreq t new)
      · refine .inl ?_
        by_contra hsome
        have hqueued := h.ordered.rows t (Option.isSome_iff_ne_none.mpr hsome)
        exact hsome (hrule.2 hqueued)

/-- After a statement, still nobody changes what an approval is on its way to. -/
theorem Granting.runs (h : Granting x) (hopen : x.opened tx = some (req, g)) (hfits : Fits req g st)
    (hrun : st.run env clock (x.committed.writes g.writes) = .ok result)
    (hrule : x.GrantsAlone tx req st) :
    Granting ⟨x.committed, Function.update x.opened tx (some (req, g.after st result))⟩ where
  ordered := h.ordered
  careful hopen' := by
    rcases update_eq_some hopen' with ⟨rfl, heq⟩ | ⟨-, hopen'⟩
    · cases heq
      exact h.careful_after hopen hfits hrun hrule
    · exact h.careful hopen'
  alone {tx₁ tx₂ req₁ req₂ g₁ g₂} h₁ h₂ {t w st'} hw hgrants hset := by
    have hnew {w : Write} (hw : w ∈ (g.after st result).writes) :
        w ∈ g.writes ∨ st.write result = some w := by
      rwa [g.after_writes, List.mem_append, Option.mem_toList] at hw
    rcases update_eq_some h₁ with ⟨rfl, heq⟩ | ⟨hne₁, h₁'⟩
    · cases heq
      rcases update_eq_some h₂ with ⟨-, heq⟩ | ⟨hne₂, h₂'⟩
      · cases heq
        rcases hnew hw with hold | hw
        · rcases hnew hset with hset | hset
          · exact h.alone hopen hopen hold hgrants hset
          · obtain ⟨row, rfl, -⟩ := hgrants
            obtain ⟨rfl | rfl, -⟩ := of_write_setStatus hrun hset
            · exact hfits.2.1 row hold
            · rw [hfits.2.1] at hold
              cases hold
        · obtain ⟨row, rfl, -⟩ := hgrants
          obtain ⟨rfl, -⟩ := of_write_insertApproval hrun hw
          rcases hnew hset with hset | hset
          · rw [hfits.2] at hset
            cases hset
          · rw [hw] at hset
            cases hset
      · rcases hnew hw with hw | hw
        · exact h.alone hopen h₂' hw hgrants hset
        · obtain ⟨row, rfl, rfl⟩ := hgrants
          obtain ⟨rfl, hnone⟩ := of_write_insertApproval hrun hw
          exact (hrule req g hopen hnone).2 tx₂ req₂ g₂ hne₂ h₂' st' hset
    · rcases update_eq_some h₂ with ⟨rfl, heq⟩ | ⟨-, h₂'⟩
      · cases heq
        rcases hnew hset with hset | hset
        · exact h.alone h₁' hopen hw hgrants hset
        · obtain ⟨rfl | rfl, -⟩ := of_write_setStatus hrun hset
          · exact hrule tx₁ req₁ g₁ hne₁ h₁' w hw hgrants
          · exact hrule.1 tx₁ req₁ g₁ hne₁ h₁' w hw hgrants
      · exact h.alone h₁' h₂' hw hgrants hset

end Runs

/-! ### Commits -/

section Commits

variable {x : Txns} {tx : TxId} {req : PgRequest} {g : Work}

/-- An open transaction stays careful when another one is committed. -/
theorem Granting.careful_commit (h : Granting x) {tx' : TxId} {req' : PgRequest} {g' : Work}
    (hopen : x.opened tx = some (req, g)) (hopen' : x.opened tx' = some (req', g')) :
    Careful (x.committed.writes g.writes) req' g' := by
  have hg := h.careful hopen'
  refine ⟨fun {t w} hw hgrants => ?_, fun {t st} hmem => ?_, fun {t} hmem => ?_, hg.kept,
    fun {t st} hmem hcleared => ?_⟩
  · rcases statusOf_writes g.writes (hg.grants hw hgrants) with ⟨-, hstatus⟩ | ⟨st, hset, -⟩
    · exact hstatus
    · exact absurd hset (h.alone hopen' hopen hw hgrants)
  · exact isSome_findTransaction_writes _ (hg.sets hmem)
  · have hfound := hg.found hmem
    rw [isSome_findTransaction_writes_iff] at hfound ⊢
    exact hfound.imp (isSome_findTransaction_writes _) id
  · refine (hg.settled hmem hcleared).imp (fun hnone => ?_) id
    by_contra hsome
    rcases unconsumed_writes (Option.isSome_iff_ne_none.mpr hsome) with ⟨w, hw, hgrants⟩ | ⟨hold, -⟩
    · exact h.alone hopen hopen' hw hgrants hmem
    · rw [hnone] at hold
      cases hold

/-- A complete transaction that set a status has moved the transaction out of `Queued`. -/
theorem Granting.moved (h : Granting x) (hopen : x.opened tx = some (req, g)) {t : String}
    {st : JobState} (hstatus : ∀ st, .setStatus t st ∈ g.writes → st ≠ .queued)
    (hset : .setStatus t st ∈ g.writes) :
    ∃ st', (x.committed.writes g.writes).statusOf t = some st' ∧ st' ≠ .queued := by
  obtain ⟨r, hr⟩ := Option.isSome_iff_exists.mp ((h.careful hopen).sets hset)
  have hold : x.committed.statusOf t = some r.status := by
    rw [PgTables.statusOf, hr, Option.map_some]
  rcases statusOf_writes g.writes hold with ⟨hnone, -⟩ | ⟨st', hset', hnew⟩
  · exact absurd hset (hnone st)
  · exact ⟨st', hnew, hstatus st' hset'⟩

/-- No unspent approval is left to a transaction that was moved. -/
theorem Granting.rows_commit (h : Granting x) (hopen : x.opened tx = some (req, g))
    (hcleared : ∀ t st, .setStatus t st ∈ g.writes →
      t ∈ g.cleared ∨ ∃ new, req = .updateStatus t new) {t : String}
    (hsome : ((x.committed.writes g.writes).unconsumed t).isSome) :
    (x.committed.writes g.writes).statusOf t = some .queued := by
  have hg := h.careful hopen
  rcases unconsumed_writes hsome with ⟨w, hw, hgrants⟩ | ⟨hold, hkept⟩
  · rcases statusOf_writes g.writes (hg.grants hw hgrants) with ⟨-, hstatus⟩ | ⟨st, hset, -⟩
    · exact hstatus
    · exact absurd hset (h.alone hopen hopen hw hgrants)
  · rcases statusOf_writes g.writes (h.ordered.rows t hold) with ⟨-, hstatus⟩ | ⟨st, hset, -⟩
    · exact hstatus
    · rcases hg.settled hset (hcleared t st hset) with hnone | ⟨w, hw, hend⟩
      · rw [hnone] at hold
        cases hold
      · exact absurd hend (hkept w hw)

/-- A transaction that is still queued has no events that say otherwise. -/
theorem Granting.unmoved_commit (h : Granting x) (hopen : x.opened tx = some (req, g))
    (hcomplete : Complete req g.missed g.lost g.writes) {t : String}
    (hqueued : ∀ st, (x.committed.writes g.writes).statusOf t = some st → st = .queued) :
    ∀ k ∈ (x.committed.writes g.writes).historyOf t, ¬ IsStatus k := by
  have hunset (st : JobState) : .setStatus t st ∉ g.writes := by
    intro hset
    obtain ⟨st', hst', hne⟩ := h.moved hopen (fun _ => (hcomplete.share t).ne_queued) hset
    exact hne (hqueued st' hst')
  have hold : ∀ st, x.committed.statusOf t = some st → st = .queued := by
    intro st hst
    rcases statusOf_writes g.writes hst with ⟨-, hnew⟩ | ⟨st', hset, -⟩
    · exact hqueued st hnew
    · exact absurd hset (hunset st')
  intro k hk
  rw [historyOf_writes, List.mem_append] at hk
  rcases hk with hk | hk
  · exact h.ordered.unmoved t hold k hk
  · rintro ⟨st, rfl⟩
    rcases (hcomplete.share t).setStatus_of_status hk with hlost | ⟨st', hset⟩
    · rw [(h.careful hopen).kept] at hlost
      cases hlost
    · exact hunset st' hset

/-- A grant is committed to a transaction that has not been moved. -/
theorem Granting.late_commit (h : Granting x) (hopen : x.opened tx = some (req, g))
    (hcomplete : Complete req g.missed g.lost g.writes) (t : String) :
    ((x.committed.writes g.writes).historyOf t).Pairwise fun a b =>
      IsStatus a → b ≠ AuditEventKind.approvalGranted.asStr := by
  rw [historyOf_writes, List.pairwise_append]
  by_cases hgranted : AuditEventKind.approvalGranted.asStr ∈ kindsOf t g.writes
  · obtain ⟨hkinds, w, hw, hgrants⟩ := (hcomplete.share t).eq_of_granted hgranted
    have hqueued := (h.careful hopen).grants hw hgrants
    rw [hkinds]
    refine ⟨h.ordered.late t, List.pairwise_singleton _ _, fun a ha b _ hstatus => ?_⟩
    refine absurd hstatus (h.ordered.unmoved t (fun st hst => ?_) a ha)
    rw [hqueued] at hst
    exact (Option.some.inj hst).symm
  · have hne {b : String} (hb : b ∈ kindsOf t g.writes) :
        b ≠ AuditEventKind.approvalGranted.asStr := by
      rintro rfl
      exact hgranted hb
    refine ⟨h.ordered.late t, ?_, fun a _ b hb _ => hne hb⟩
    exact List.pairwise_of_forall_mem_list fun a _ b hb _ => hne hb

theorem Granting.commits (h : Granting x) (hopen : x.opened tx = some (req, g))
    (hcomplete : Complete req g.missed g.lost g.writes)
    (hcleared : ∀ t st, .setStatus t st ∈ g.writes →
      t ∈ g.cleared ∨ ∃ new, req = .updateStatus t new) :
    Granting ⟨x.committed.writes g.writes, Function.update x.opened tx none⟩ where
  ordered :=
    ⟨fun _ => h.rows_commit hopen hcleared, fun _ => h.unmoved_commit hopen hcomplete,
      h.late_commit hopen hcomplete⟩
  careful hopen' := h.careful_commit hopen (of_update_none hopen').2
  alone h₁ h₂ := h.alone (of_update_none h₁).2 (of_update_none h₂).2

end Commits

/-! ### Runs -/

theorem Granting.step {env : StoreEnv} {x x' : Txns} (h : Granting x)
    (hstep : Txns.Step env Txns.GrantsAlone x x') : Granting x' := by
  cases hstep with
  | quiet => exact h
  | @opens tx req hnone =>
    refine ⟨h.ordered, fun hopen => ?_, fun {_ _ _ _ _ _} h₁ h₂ {t w st} hw hgrants hset => ?_⟩
    · rcases update_eq_some hopen with ⟨rfl, heq⟩ | ⟨-, hopen'⟩
      · cases heq
        exact careful_begin _ _ _
      · exact h.careful hopen'
    · rcases update_eq_some h₁ with ⟨rfl, heq⟩ | ⟨-, h₁'⟩
      · cases heq
        simp at hw
      · rcases update_eq_some h₂ with ⟨rfl, heq⟩ | ⟨-, h₂'⟩
        · cases heq
          simp at hset
        · exact h.alone h₁' h₂' hw hgrants hset
  | runs hopen hfits hrun _ hrule => exact h.runs hopen hfits hrun hrule
  | ends tx =>
    exact ⟨h.ordered, fun hopen => h.careful (of_update_none hopen).2,
      fun h₁ h₂ => h.alone (of_update_none h₁).2 (of_update_none h₂).2⟩
  | commits hopen hcomplete hcleared => exact h.commits hopen hcomplete hcleared

/-- What nobody else has written in the database, no other open transaction has. -/
theorem Tracks.not_written {db : Db} {ws : ℕ → Option (PgRequest × Work)} {x : Txns} {tx : TxId}
    {p : Write → Bool} (h : Tracks db ws x) (hfree : db.writtenByOther tx p = false) {tx' : TxId}
    {req' : PgRequest} {g' : Work} (hne : tx' ≠ tx) (hopen : x.opened tx' = some (req', g')) :
    ∀ w ∈ g'.writes, p w = false := by
  intro w hw
  obtain ⟨s, hs, hwrites⟩ := h.exists_session hopen
  simp only [Db.writtenByOther, List.any_eq_false] at hfree
  have hother := hfree tx' (List.mem_range.mpr (h.lt_nextTx hopen))
  simp only [hs, Option.any_some, Bool.and_eq_true, bne_iff_ne, ne_eq, hne, not_false_eq_true,
    true_and, List.any_eq_true, not_exists, not_and, Bool.not_eq_true, hwrites] at hother
  exact hother w hw

/-- The condition on the run gives the one on the open transactions. -/
theorem grantsAlone_of_rule (c : store.system.Config) (x : Txns) (pid : ℕ)
    (p : store.system.Process) (tx : TxId) (st : Statement)
    (k : (PgCall.exec tx st).Answer → Prog PgCall PgCall.Answer Unit) (choice : PgChoice)
    (htracks : Tracks c.world (works c) x) (hp : c.procs[pid]? = some p)
    (hprog : p.program = .call (.exec tx st) k) (hfault : choice.fault = none)
    (hrule : GrantsAlone c (.act pid choice)) (hopen : (work p).Open tx) :
    x.GrantsAlone tx p.request st := by
  have hpid : works c pid = some (p.request, work p) := by
    rw [works, hp, Option.map_some]
  have hdb := hrule p tx st k hp hprog hfault
  have hview : c.world.view tx = x.committed.writes (work p).writes := htracks.view_eq hpid hopen
  have hopened : x.opened tx = some (p.request, work p) := htracks.opened hpid hopen
  cases st with
  | insertApproval row =>
    intro req g hopen' hnone
    obtain ⟨rfl, rfl⟩ := Prod.mk.inj (Option.some.inj (hopened.symm.trans hopen'))
    rw [← hview] at hnone
    simp only [Db.grantsAlone, hnone, Option.isSome_none, Bool.false_or, Bool.and_eq_true,
      beq_iff_eq, Bool.not_eq_true'] at hdb
    rw [htracks.committed]
    refine ⟨hdb.1, fun tx' req' g' hne hopen₂ st hset => ?_⟩
    have hother := htracks.not_written hdb.2 hne hopen₂ _ hset
    simp [Write.setsStatus] at hother
  | updateQueued t new =>
    intro tx' req' g' hne hopen₂ w hw hgrants
    rw [Db.grantsAlone, Bool.not_eq_true'] at hdb
    have hother := htracks.not_written hdb hne hopen₂ w hw
    rw [Write.grants_of_Grants hgrants] at hother
    cases hother
  | updateStatus t new =>
    simp only [Db.grantsAlone, Bool.and_eq_true, Bool.not_eq_true', Bool.or_eq_true,
      bne_iff_ne, Option.isNone_iff_eq_none] at hdb
    refine ⟨fun tx' req' g' hne hopen₂ w hw hgrants => ?_, fun hqueued => ?_⟩
    · have hother := htracks.not_written hdb.1 hne hopen₂ w hw
      rw [Write.grants_of_Grants hgrants] at hother
      cases hother
    · rw [htracks.committed] at hqueued ⊢
      exact hdb.2.resolve_left fun hne => hne hqueued
  | _ => trivial

/-- **Approvals are granted before the status is changed, and none is left in the end**, in every
interleaving of operations in which approvals are inserted on their own. -/
theorem no_late_grant (events : List store.system.Event)
    (hunblocked : System.Along Unblocked events) (halone : System.Along GrantsAlone events)
    (t : String) :
    (((store.system.run events).world.committed.historyOf t).Pairwise fun a b =>
      IsStatus a → b ≠ AuditEventKind.approvalGranted.asStr) ∧
    ∀ st, (store.system.run events).world.committed.statusOf t = some st → st.isTerminal = true →
      (store.system.run events).world.committed.unconsumed t = none := by
  obtain ⟨x, htracks, hx⟩ := txns_induction (Q := Txns.GrantsAlone) granting_initial
    (fun x x' _ hx hstep => hx.step hstep) grantsAlone_of_rule events hunblocked halone
  rw [← htracks.committed]
  refine ⟨hx.ordered.late t, fun st hst hterminal => ?_⟩
  by_contra hsome
  have hqueued := hx.ordered.rows t (Option.isSome_iff_ne_none.mpr hsome)
  obtain rfl := Option.some.inj (hst.symm.trans hqueued)
  cases hterminal

end Grants

/-! ### Sample runs -/

/-- A cancellation has updated the transaction; an approval, which still sees it queued, inserts
its row; the cancellation is committed, and then the approval. -/
def approveAfterCancel : List sampleStore.system.Event :=
  .arrive (.record "tx-1" ⟨"req-1", "h1", "UpdateSystem", .high, "Update", [], .admin,
    .uid 1000⟩) ::
    acts 0 6 ++ .arrive (.cancelQueued "tx-1" (.uid 1000)) :: acts 1 3 ++
    .arrive (.approve "tx-1" (.uid 1000)) :: acts 2 4 ++ acts 1 6 ++ acts 2 5

/-- The grant is recorded after the cancellation, and the approval stays. -/
theorem approveAfterCancel_late : System.Along Unblocked approveAfterCancel ∧
    (sampleStore.system.run approveAfterCancel).world.committed.historyOf "tx-1" =
      ["status_canceled", "approval_granted"] ∧
    ¬ (((sampleStore.system.run approveAfterCancel).world.committed.historyOf "tx-1").Pairwise
      fun a b => IsStatus a → b ≠ AuditEventKind.approvalGranted.asStr) ∧
    (sampleStore.system.run approveAfterCancel).world.committed.statusOf "tx-1" = some .canceled ∧
    (sampleStore.system.run approveAfterCancel).world.committed.unconsumed "tx-1" ≠ none := by
  have hhistory : (sampleStore.system.run approveAfterCancel).world.committed.historyOf "tx-1" =
      ["status_canceled", "approval_granted"] := by
    decide +kernel
  refine ⟨System.along_of_check unblocked_of_isUnblocked (by decide +kernel), hhistory, ?_,
    by decide +kernel, ?_⟩
  · rw [hhistory]
    intro hlate
    rw [List.pairwise_pair] at hlate
    exact hlate ⟨.canceled, rfl⟩ rfl
  · rw [← Option.isSome_iff_ne_none]
    decide +kernel

/-- The test of `GrantsAlone`. -/
def allGrantAlone (c : sampleStore.system.Config) : sampleStore.system.Event → Bool
  | .arrive _ => true
  | .act pid _ => c.procs[pid]?.all fun p =>
      match p.program with
      | .call (.exec tx st) _ => c.world.grantsAlone tx st
      | _ => true

theorem grantsAlone_of_allGrantAlone (c : sampleStore.system.Config)
    (e : sampleStore.system.Event) (h : allGrantAlone c e = true) : GrantsAlone c e := by
  cases e with
  | arrive req => trivial
  | act pid choice =>
    intro p tx st k hp hprog hfault
    simpa [allGrantAlone, hp, hprog] using h

/-- The transaction is approved, and canceled while another one is being recorded. -/
def cancelAfterApprove : List sampleStore.system.Event :=
  approvedRun ++ .arrive (.cancelQueued "tx-1" (.uid 1000)) :: acts 2 5 ++
    .arrive (.record "tx-2" ⟨"req-2", "h2", "StartService", .low, "Start", [], .dev, .uid 1001⟩) ::
      acts 3 3 ++ acts 2 11

/-- The cancellation takes the approval with it. -/
theorem cancelAfterApprove_settled :
    (sampleStore.system.run cancelAfterApprove).world.committed.historyOf "tx-1" =
      ["approval_granted", "approval_revoked", "status_canceled"] ∧
    (((sampleStore.system.run cancelAfterApprove).world.committed.historyOf "tx-1").Pairwise
      fun a b => IsStatus a → b ≠ AuditEventKind.approvalGranted.asStr) ∧
    (sampleStore.system.run cancelAfterApprove).world.committed.unconsumed "tx-1" = none := by
  obtain ⟨hlate, hended⟩ := no_late_grant cancelAfterApprove
    (System.along_of_check unblocked_of_isUnblocked (by decide +kernel))
    (System.along_of_check grantsAlone_of_allGrantAlone (by decide +kernel)) "tx-1"
  exact ⟨by decide +kernel, hlate, hended .canceled (by decide +kernel) rfl⟩

end Sysknife.Postgres
