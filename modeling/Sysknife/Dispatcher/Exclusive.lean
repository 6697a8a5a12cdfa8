import Sysknife.Dispatcher.Conduct
import Sysknife.Store.Lifecycle

/-!
# Exclusion slots

Over every interleaving of requests, the occupied slots are exactly what the executions in
flight claimed (`SlotsHeld`). So two mutating executions of one resource are never in flight
together, a release only removes the releasing job's own slots, and a job that has returned
holds none (`exclusive_slots`).

A system-class execution keeps every later mutating one out, but the gate does not see what is
in flight without a slot, or under another resource, when it lets the system-class execution
in. `system_exclusive` is about the runs in which that does not happen.
-/

namespace Sysknife.Dispatcher

open Store

/-! ### The slots of an action -/

section Claims

variable {d : Daemon} {actionName : String} {spec : ActionSpec} {res : ExclusiveResource}

/-- A mutating action claims its own resource, and an upgrade-class one the system. -/
theorem mem_toClaim_iff : res ∈ toClaim d actionName spec ↔
    isMutating d actionName spec = true ∧
      ((res = .system ∧ isHighRiskReboot spec = true) ∨ exclusiveResource spec = some res) := by
  unfold toClaim
  cases hmutating : isMutating d actionName spec with
  | false => simp
  | true =>
    simp only [if_true, true_and]
    cases hown : exclusiveResource spec with
    | none => cases isHighRiskReboot spec <;> simp
    | some r =>
      have hr : r ≠ .system := fun h => exclusiveResource_ne_system spec (by rw [hown, h])
      cases isHighRiskReboot spec <;> simp [hr, eq_comm]

theorem isMutating_of_isHighRiskReboot (h : isHighRiskReboot spec = true) :
    isMutating d actionName spec = true := by
  rw [isMutating, h, Bool.or_true]

theorem system_mem_toClaim_iff :
    ExclusiveResource.system ∈ toClaim d actionName spec ↔ isHighRiskReboot spec = true := by
  rw [mem_toClaim_iff]
  constructor
  · rintro ⟨-, ⟨-, h⟩ | h⟩
    · exact h
    · exact absurd h (exclusiveResource_ne_system spec)
  · exact fun h => ⟨isMutating_of_isHighRiskReboot h, .inl ⟨rfl, h⟩⟩

end Claims

/-! ### What is in flight, and what it holds -/

section Slots

variable {d : Daemon}

/-- The process serves an `execute` request for an action of this specification. -/
def Executes (p : d.system.Process) (r : ExecuteRequest) (spec : ActionSpec) : Prop :=
  p.request = .execute r ∧ d.buildActionSpec r.actionName r.params = .ok spec

theorem Executes.unique {p : d.system.Process} {r r' : ExecuteRequest} {spec spec' : ActionSpec}
    (h : Executes p r spec) (h' : Executes p r' spec') : r = r' ∧ spec = spec' := by
  obtain rfl := Request.execute.inj (h.1.symm.trans h'.1)
  exact ⟨rfl, Except.ok.inj (h.2.symm.trans h'.2)⟩

/-- The request was let in and has not released its slots. A read-only action skips the gate and
is in flight from its claim on; an action that may still be running is in flight for good. -/
def Progress.InFlight (g : Progress) : Prop :=
  (g.admitted = true ∨ g.claimed = true) ∧ g.released = false

/-- The process `i` has an execution in flight. -/
def Executing (c : d.system.Config) (i : ℕ) (r : ExecuteRequest) (spec : ActionSpec) : Prop :=
  ∃ p, c.procs[i]? = some p ∧ Executes p r spec ∧ (progress d p).InFlight

/-- The process `i` holds the slot of `res` under the hash `h`. -/
def Holding (c : d.system.Config) (i : ℕ) (res : ExclusiveResource) (h : String) : Prop :=
  ∃ p r spec, c.procs[i]? = some p ∧ Executes p r spec ∧ (progress d p).admitted = true ∧
    (progress d p).released = false ∧ res ∈ toClaim d r.actionName spec ∧
    h = computeRequestHash d r.actionName r.params

/-- **The slot invariant.** A slot is occupied exactly under the hash of the one process that
holds it. -/
structure SlotsHeld (c : d.system.Config) : Prop where
  occupied : ∀ res h, c.world.runningExclusive res = some h → ∃ i, Holding c i res h
  held : ∀ i res h, Holding c i res h → c.world.runningExclusive res = some h
  unique : ∀ i j res h h', Holding c i res h → Holding c j res h' → i = j

variable {c : d.system.Config} {pid : ℕ} {choice : Choice} {p : d.system.Process}
  {op : DaemonCall} {k : op.Answer → Handler Unit} {res : ExclusiveResource} {h : String}

theorem holding_call_of_ne {i : ℕ} (hi : i ≠ pid) :
    Holding (c.call pid choice p op k) i res h ↔ Holding c i res h := by
  simp only [Holding, System.getElem?_call_of_ne hi]

theorem holding_call_self (hp : c.procs[pid]? = some p) :
    Holding (c.call pid choice p op k) pid res h ↔
      ∃ r spec, Executes p r spec ∧
        ((progress d p).admitted || op.admits (World.serve d.store c.world choice op).1) = true ∧
        ((progress d p).released || op.releases) = false ∧ res ∈ toClaim d r.actionName spec ∧
        h = computeRequestHash d r.actionName r.params := by
  obtain ⟨hadmitted, -, hreleased, -⟩ :=
    (progress d p).next_flags op (World.serve d.store c.world choice op).1
  rw [← hadmitted, ← hreleased]
  constructor
  · rintro ⟨q, r, spec, hq, hexec, hadm, hrel, hmem, rfl⟩
    rw [System.getElem?_call_self hp] at hq
    obtain rfl := Option.some.inj hq
    rw [progress_concat] at hadm hrel
    exact ⟨r, spec, hexec, hadm, hrel, hmem, rfl⟩
  · rintro ⟨r, spec, hexec, hadm, hrel, hmem, rfl⟩
    refine ⟨_, r, spec, System.getElem?_call_self hp, hexec, ?_, ?_, hmem, rfl⟩
    · rw [progress_concat]
      exact hadm
    · rw [progress_concat]
      exact hrel

/-- Only the gate and the release touch the slots. -/
theorem runningExclusive_serve {env : StoreEnv} {w : World}
    (hadmits : op.admits (w.serve env choice op).1 = false) (hreleases : op.releases = false) :
    (w.serve env choice op).2.runningExclusive = w.runningExclusive := by
  have hread {α : Type} (query : Tables → α) :
      (w.read choice query).2.runningExclusive = w.runningExclusive := by
    unfold World.read
    split <;> rfl
  have hcommit {α : Type} (operation : Tables → Except StoreError (α × Tables)) :
      (w.commit choice operation).2.runningExclusive = w.runningExclusive := by
    unfold World.commit
    split
    · rfl
    · split <;> rfl
  cases op with
  | get | getPreview | fetchChainRow => exact hread _
  | recordPreviewed | approveTransaction | revokeUnconsumedApproval | claimApprovedForExecution
  | updateStatus | cancelQueued | cleanupStaleQueued => exact hcommit _
  | enterGate own claims requestHash =>
    simp only [World.serve] at hadmits ⊢
    split at hadmits
    · rfl
    · cases hadmits
  | release => cases hreleases
  | _ => rfl

/-- The holder of a slot has the hash the slot shows. -/
theorem SlotsHeld.not_blocked (hc : SlotsHeld c) {own : Option ExclusiveResource} {i : ℕ}
    (hblocking : c.world.blocking own = none) (hres : res = .system ∨ own = some res) :
    ¬ Holding c i res h := by
  intro hholding
  have hslot := hc.held i res h hholding
  unfold World.blocking at hblocking
  rw [Option.or_eq_none_iff, Option.map_eq_none_iff, Option.bind_eq_none_iff] at hblocking
  rcases hres with rfl | hown
  · rw [hblocking.1] at hslot
    cases hslot
  · have hnone := hblocking.2 res hown
    rw [hslot] at hnone
    cases hnone

/-- Entering the gate occupies slots that were free. -/
theorem SlotsHeld.enterGate (hc : SlotsHeld c) (hp : c.procs[pid]? = some p)
    {own : Option ExclusiveResource} {claims : List ExclusiveResource} {requestHash : String}
    {k : Option (ExclusiveResource × String) → Handler Unit}
    (hblocking : c.world.blocking own = none)
    (hallowed : Allowed d p.request (progress d p) (.enterGate own claims requestHash)) :
    SlotsHeld (c.call pid choice p (.enterGate own claims requestHash) k) := by
  obtain ⟨r, spec, hreq, hchecked, hown, hclaims, hhash, -, hadmitted, -, hreleased⟩ := hallowed
  have hexec : Executes p r spec := ⟨hreq, hchecked.spec_eq⟩
  have hserve : World.serve d.store c.world choice (.enterGate own claims requestHash) =
      (none, c.world.claim claims requestHash) := by
    simp only [World.serve, hblocking]
  have hself (res : ExclusiveResource) (h : String) :
      Holding (c.call pid choice p (.enterGate own claims requestHash) k) pid res h ↔
        res ∈ claims ∧ h = requestHash := by
    rw [holding_call_self hp, hserve, hclaims, hhash]
    constructor
    · rintro ⟨r', spec', hexec', -, -, hmem, rfl⟩
      obtain ⟨rfl, rfl⟩ := hexec.unique hexec'
      exact ⟨hmem, rfl⟩
    · rintro ⟨hmem, rfl⟩
      exact ⟨r, spec, hexec, by simp [DaemonCall.admits], by simp [hreleased, DaemonCall.releases],
        hmem, rfl⟩
  have hfree {i : ℕ} {res : ExclusiveResource} {h : String} (hmem : res ∈ claims) :
      ¬ Holding c i res h := by
    rw [hclaims, mem_toClaim_iff, ← hown] at hmem
    exact hc.not_blocked hblocking (hmem.2.imp And.left id)
  have hslots : (c.call pid choice p (.enterGate own claims requestHash) k).world.runningExclusive =
      fun res => if res ∈ claims then some requestHash else c.world.runningExclusive res := by
    simp only [System.Config.call, hserve, World.claim]
  -- the process did not hold anything before
  have hother {i : ℕ} {res : ExclusiveResource} {h : String} (hholding : Holding c i res h) :
      i ≠ pid := by
    rintro rfl
    obtain ⟨q, -, -, hq, -, hadm, -⟩ := hholding
    obtain rfl := Option.some.inj (hp.symm.trans hq)
    rw [hadmitted] at hadm
    cases hadm
  refine ⟨fun res h hslot => ?_, fun i res h hholding => ?_, fun i j res h h' hi hj => ?_⟩
  · rw [hslots] at hslot
    simp only at hslot
    split_ifs at hslot with hmem
    · exact ⟨pid, (hself res h).mpr ⟨hmem, (Option.some.inj hslot).symm⟩⟩
    · obtain ⟨i, hi⟩ := hc.occupied res h hslot
      exact ⟨i, (holding_call_of_ne (hother hi)).mpr hi⟩
  · rw [hslots]
    by_cases hi : i = pid
    · subst hi
      obtain ⟨hmem, rfl⟩ := (hself res h).mp hholding
      exact if_pos hmem
    · have hold := (holding_call_of_ne hi).mp hholding
      have hmem : res ∉ claims := fun hmem => hfree hmem hold
      exact (if_neg hmem).trans (hc.held i res h hold)
  · by_cases hi' : i = pid
    · by_cases hj' : j = pid
      · rw [hi', hj']
      · rw [hi'] at hi
        exact absurd ((holding_call_of_ne hj').mp hj) (hfree ((hself res h).mp hi).1)
    · by_cases hj' : j = pid
      · rw [hj'] at hj
        exact absurd ((holding_call_of_ne hi').mp hi) (hfree ((hself res h').mp hj).1)
      · exact hc.unique i j res h h' ((holding_call_of_ne hi').mp hi)
          ((holding_call_of_ne hj').mp hj)

/-- What a process about to release holds: the slots it names, under the hash it names. -/
theorem holding_of_release_allowed {claims : List ExclusiveResource} {requestHash : String}
    (hp : c.procs[pid]? = some p)
    (hallowed : Allowed d p.request (progress d p) (.release claims requestHash)) :
    Holding c pid res h ↔ res ∈ claims ∧ h = requestHash := by
  obtain ⟨r, spec, hreq, hspec, rfl, rfl, hadmitted, hreleased⟩ := hallowed
  constructor
  · rintro ⟨q, r', spec', hq, hexec, -, -, hmem, rfl⟩
    obtain rfl := Option.some.inj (hp.symm.trans hq)
    obtain ⟨rfl, rfl⟩ := hexec.unique ⟨hreq, hspec⟩
    exact ⟨hmem, rfl⟩
  · rintro ⟨hmem, rfl⟩
    refine ⟨p, r, spec, hp, ⟨hreq, hspec⟩, ?_, hreleased, hmem, rfl⟩
    rw [hadmitted]
    exact (mem_toClaim_iff.mp hmem).1

/-- A release empties exactly the slots the process holds. -/
theorem SlotsHeld.runningExclusive_release (hc : SlotsHeld c) {claims : List ExclusiveResource}
    {requestHash : String} (hp : c.procs[pid]? = some p)
    (hallowed : Allowed d p.request (progress d p) (.release claims requestHash))
    (res : ExclusiveResource) :
    (c.world.release claims requestHash).runningExclusive res =
      if res ∈ claims then none else c.world.runningExclusive res := by
  unfold World.release
  simp only
  by_cases hmem : res ∈ claims
  · have hholding : Holding c pid res requestHash :=
      (holding_of_release_allowed hp hallowed).mpr ⟨hmem, rfl⟩
    rw [if_pos ⟨hmem, hc.held pid res requestHash hholding⟩, if_pos hmem]
  · rw [if_neg fun h => hmem h.1, if_neg hmem]

theorem SlotsHeld.release (hc : SlotsHeld c) (hp : c.procs[pid]? = some p)
    {claims : List ExclusiveResource} {requestHash : String} {k : Unit → Handler Unit}
    (hallowed : Allowed d p.request (progress d p) (.release claims requestHash)) :
    SlotsHeld (c.call pid choice p (.release claims requestHash) k) := by
  have hself (res : ExclusiveResource) (h : String) :
      ¬ Holding (c.call pid choice p (.release claims requestHash) k) pid res h := by
    rw [holding_call_self hp]
    rintro ⟨_, _, -, -, hreleased, -⟩
    rw [DaemonCall.releases, Bool.or_true] at hreleased
    cases hreleased
  have hslots (res : ExclusiveResource) :
      (c.call pid choice p (.release claims requestHash) k).world.runningExclusive res =
        if res ∈ claims then none else c.world.runningExclusive res :=
    hc.runningExclusive_release hp hallowed res
  refine ⟨fun res h hslot => ?_, fun i res h hholding => ?_, fun i j res h h' hi hj => ?_⟩
  · rw [hslots] at hslot
    split_ifs at hslot with hmem
    obtain ⟨i, hi⟩ := hc.occupied res h hslot
    refine ⟨i, (holding_call_of_ne ?_).mpr hi⟩
    rintro rfl
    exact hmem ((holding_of_release_allowed hp hallowed).mp hi).1
  · have hi : i ≠ pid := by
      rintro rfl
      exact hself res h hholding
    have hold := (holding_call_of_ne hi).mp hholding
    have hmem : res ∉ claims := fun hmem =>
      hi (hc.unique i pid res h _ hold ((holding_of_release_allowed hp hallowed).mpr ⟨hmem, rfl⟩))
    rw [hslots, if_neg hmem]
    exact hc.held i res h hold
  · have hi' : i ≠ pid := by
      rintro rfl
      exact hself res h hi
    have hj' : j ≠ pid := by
      rintro rfl
      exact hself res h' hj
    exact hc.unique i j res h h' ((holding_call_of_ne hi').mp hi) ((holding_call_of_ne hj').mp hj)

/-- Any other call leaves slots and holders as they are. -/
theorem SlotsHeld.quiet (hc : SlotsHeld c) (hp : c.procs[pid]? = some p)
    (hadmits : op.admits (World.serve d.store c.world choice op).1 = false)
    (hreleases : op.releases = false) : SlotsHeld (c.call pid choice p op k) := by
  have hholding (i : ℕ) (res : ExclusiveResource) (h : String) :
      Holding (c.call pid choice p op k) i res h ↔ Holding c i res h := by
    by_cases hi : i = pid
    · subst hi
      rw [holding_call_self hp, hadmits, hreleases, Bool.or_false, Bool.or_false]
      constructor
      · rintro ⟨r, spec, hrest⟩
        exact ⟨p, r, spec, hp, hrest⟩
      · rintro ⟨q, r, spec, hq, hrest⟩
        obtain rfl := Option.some.inj (hp.symm.trans hq)
        exact ⟨r, spec, hrest⟩
    · exact holding_call_of_ne hi
  have hslots : (c.call pid choice p op k).world.runningExclusive = c.world.runningExclusive :=
    runningExclusive_serve hadmits hreleases
  refine ⟨fun res h hslot => ?_, fun i res h hi => ?_, fun i j res h h' hi hj => ?_⟩
  · rw [hslots] at hslot
    obtain ⟨i, hi⟩ := hc.occupied res h hslot
    exact ⟨i, (hholding i res h).mpr hi⟩
  · rw [hslots]
    exact hc.held i res h ((hholding i res h).mp hi)
  · exact hc.unique i j res h h' ((hholding i res h).mp hi) ((hholding j res h').mp hj)

/-- The slot invariant survives every allowed call. -/
theorem SlotsHeld.call (hc : SlotsHeld c) (hp : c.procs[pid]? = some p)
    (hallowed : Allowed d p.request (progress d p) op) : SlotsHeld (c.call pid choice p op k) := by
  cases hadmits : op.admits (World.serve d.store c.world choice op).1 with
  | true =>
    obtain ⟨own, claims, requestHash, rfl, -⟩ := admits_eq_true hadmits
    have hblocking : c.world.blocking own = none := by
      simp only [World.serve] at hadmits
      split at hadmits
      · cases hadmits
      · assumption
    exact hc.enterGate hp hblocking hallowed
  | false =>
    cases hreleases : op.releases with
    | true =>
      obtain ⟨claims, requestHash, rfl⟩ := releases_eq_true hreleases
      exact hc.release hp hallowed
    | false => exact hc.quiet hp hadmits hreleases

theorem SlotsHeld.arrive (hc : SlotsHeld c) (req : Request) : SlotsHeld (c.arrive req) := by
  have hholding (i : ℕ) (res : ExclusiveResource) (h : String) :
      Holding (c.arrive req) i res h ↔ Holding c i res h := by
    constructor
    · rintro ⟨p, r, spec, hp, hrest⟩
      rcases System.getElem?_arrive hp with hold | ⟨-, rfl⟩
      · exact ⟨p, r, spec, hold, hrest⟩
      · cases hrest.2.1
    · rintro ⟨p, r, spec, hp, hrest⟩
      exact ⟨p, r, spec, System.getElem?_arrive_of_some hp, hrest⟩
  refine ⟨fun res h hslot => ?_, fun i res h hi => ?_, fun i j res h h' hi hj => ?_⟩
  · obtain ⟨i, hi⟩ := hc.occupied res h hslot
    exact ⟨i, (hholding i res h).mpr hi⟩
  · exact hc.held i res h ((hholding i res h).mp hi)
  · exact hc.unique i j res h h' ((hholding i res h).mp hi) ((hholding j res h').mp hj)

theorem slotsHeld_initial : SlotsHeld (⟨.initial, []⟩ : d.system.Config) := by
  refine ⟨fun res h hslot => ?_, ?_, ?_⟩
  · cases hslot
  · rintro i res h ⟨p, _, _, hp, -⟩
    simp at hp
  · rintro i j res h h' ⟨p, _, _, hp, -⟩
    simp at hp

/-- The slot invariant holds in every run. -/
theorem slotsHeld_run (events : List d.system.Event) : SlotsHeld (d.system.run events) :=
  daemon_induction (R := fun _ _ => True) slotsHeld_initial (fun _ req hc => hc.arrive req)
    (fun _ _ _ _ _ _ hc _ hp _ hallowed => hc.call hp hallowed) events fun _ _ _ _ => trivial

/-- A mutating execution in flight holds every slot it claims. -/
theorem holding_of_executing {i : ℕ} {r : ExecuteRequest} {spec : ActionSpec} (hc : AllSound c)
    (hexecuting : Executing c i r spec) (hmem : res ∈ toClaim d r.actionName spec) :
    Holding c i res (computeRequestHash d r.actionName r.params) := by
  obtain ⟨p, hp, hexec, hflight, hreleased⟩ := hexecuting
  have hadmitted : (progress d p).admitted = true := by
    rcases hflight with hadmitted | hclaimed
    · exact hadmitted
    · obtain ⟨r', spec', hreq, hspec, heq⟩ := (hc i p hp).claimed hclaimed
      obtain ⟨rfl, rfl⟩ := hexec.unique ⟨hreq, hspec⟩
      rw [heq]
      exact (mem_toClaim_iff.mp hmem).1
  exact ⟨p, r, spec, hp, hexec, hadmitted, hreleased, hmem, rfl⟩

/-- **Exclusion slots.** In every run, two mutating executions of one resource are never in
flight together; a release leaves a slot alone or empties one that the releasing process and no
other holds; and a handler that returned holds no slot, every occupied slot being another's,
unless its action may still be running. -/
theorem exclusive_slots (events : List d.system.Event) :
    (∀ (i j : ℕ) r s spec spec' res, i ≠ j → Executing (d.system.run events) i r spec →
      Executing (d.system.run events) j s spec' → isMutating d r.actionName spec = true →
      isMutating d s.actionName spec' = true →
      ¬ (exclusiveResource spec = some res ∧ exclusiveResource spec' = some res)) ∧
    (∀ (pid : ℕ) choice p claims requestHash k res, (d.system.run events).procs[pid]? = some p →
      p.program = .call (.release claims requestHash) k →
        ((d.system.run events).call pid choice p (.release claims requestHash)
          k).world.runningExclusive
            res = (d.system.run events).world.runningExclusive res ∨
          ((∃ h, Holding (d.system.run events) pid res h) ∧
            ∀ j h, Holding (d.system.run events) j res h → j = pid)) ∧
    (∀ (i : ℕ) p res h, (d.system.run events).procs[i]? = some p → p.program = .pure () →
      (∀ result, (progress d p).result = some result → mayStillBeRunning result = false) →
      ¬ Holding (d.system.run events) i res h ∧
        ((d.system.run events).world.runningExclusive res = some h →
          ∃ j, j ≠ i ∧ Holding (d.system.run events) j res h)) := by
  have hslots := slotsHeld_run events
  have hsound := allSound_run events
  refine ⟨?_, ?_, ?_⟩
  · rintro i j r s spec spec' res hne hexecuting hexecuting' hmut hmut' ⟨hown, hown'⟩
    have hi := holding_of_executing hsound hexecuting (mem_toClaim_iff.mpr ⟨hmut, .inr hown⟩)
    have hj := holding_of_executing hsound hexecuting' (mem_toClaim_iff.mpr ⟨hmut', .inr hown'⟩)
    exact hne (hslots.unique i j res _ _ hi hj)
  · intro pid choice p claims requestHash k res hp hprog
    have hallowed := allowed_of_next events hp hprog
    by_cases hmem : res ∈ claims
    · have hholding := (holding_of_release_allowed (h := requestHash) hp hallowed).mpr ⟨hmem, rfl⟩
      exact .inr ⟨⟨requestHash, hholding⟩, fun j h hj => hslots.unique j pid res _ _ hj hholding⟩
    · exact .inl ((hslots.runningExclusive_release hp hallowed res).trans (if_neg hmem))
  · intro i p res h hp hdone hstopped
    have hnot : ¬ Holding (d.system.run events) i res h := by
      rintro ⟨q, r, spec, hq, -, hadmitted, hreleased, -⟩
      obtain rfl := Option.some.inj (hp.symm.trans hq)
      rcases (done_of_returned events hp hdone).releases hadmitted with hrel | ⟨result, hres, hrun⟩
      · rw [hreleased] at hrel
        cases hrel
      · rw [hstopped result hres] at hrun
        cases hrun
    refine ⟨hnot, fun hslot => ?_⟩
    obtain ⟨j, hj⟩ := hslots.occupied res h hslot
    refine ⟨j, ?_, hj⟩
    rintro rfl
    exact hnot hj

/-! ### System-class executions -/

/-- No system-class execution comes to the gate while a mutating execution is in flight that the
gate cannot see: one that holds neither the system nor the resource of the newcomer. -/
def SeenByGate (c : d.system.Config) : d.system.Event → Prop
  | .arrive _ => True
  | .act pid _ => ∀ p r spec own claims requestHash k, c.procs[pid]? = some p →
      Executes p r spec → p.program = .call (.enterGate own claims requestHash) k →
      isHighRiskReboot spec = true →
      ∀ j s spec', j ≠ pid → Executing c j s spec' → isMutating d s.actionName spec' = true →
        isHighRiskReboot spec' = true ∨
          ∃ res, exclusiveResource spec = some res ∧ exclusiveResource spec' = some res

/-- While a system-class execution is in flight, no other mutating one is. -/
def SystemAlone (c : d.system.Config) : Prop :=
  ∀ i j r s spec spec', i ≠ j → Executing c i r spec → Executing c j s spec' →
    isHighRiskReboot spec = true → isMutating d s.actionName spec' = false

theorem executing_call_of_ne {i : ℕ} {r : ExecuteRequest} {spec : ActionSpec} (hi : i ≠ pid) :
    Executing (c.call pid choice p op k) i r spec ↔ Executing c i r spec := by
  simp only [Executing, System.getElem?_call_of_ne hi]

/-- A process comes into flight by passing the gate or by its claim. -/
theorem executing_call_self {r : ExecuteRequest} {spec : ActionSpec} (hp : c.procs[pid]? = some p)
    (hexecuting : Executing (c.call pid choice p op k) pid r spec) :
    Executes p r spec ∧ (Executing c pid r spec ∨
      op.admits (World.serve d.store c.world choice op).1 = true ∨
      op.claims (World.serve d.store c.world choice op).1 = true) := by
  obtain ⟨hadmitted, hclaimed, hreleased, -⟩ :=
    (progress d p).next_flags op (World.serve d.store c.world choice op).1
  obtain ⟨q, hq, hexec, hflight, hrel⟩ := hexecuting
  rw [System.getElem?_call_self hp] at hq
  obtain rfl := Option.some.inj hq
  have hexec : Executes p r spec := hexec
  rw [progress_concat, hreleased, Bool.or_eq_false_iff] at hrel
  rw [progress_concat, hadmitted, hclaimed, Bool.or_eq_true, Bool.or_eq_true] at hflight
  refine ⟨hexec, ?_⟩
  rcases hflight with (h | h) | (h | h)
  · exact .inl ⟨p, hp, hexec, .inl h, hrel.1⟩
  · exact .inr (.inl h)
  · exact .inl ⟨p, hp, hexec, .inr h, hrel.1⟩
  · exact .inr (.inr h)

/-- A mutating execution comes into flight at the gate, when nothing it needs is held. -/
theorem executing_or_gate {r : ExecuteRequest} {spec : ActionSpec} (hp : c.procs[pid]? = some p)
    (hallowed : Allowed d p.request (progress d p) op)
    (hexecuting : Executing (c.call pid choice p op k) pid r spec)
    (hmutating : isMutating d r.actionName spec = true) :
    Executing c pid r spec ∨ ∃ own claims requestHash,
      op = .enterGate own claims requestHash ∧ Executes p r spec ∧ own = exclusiveResource spec ∧
        c.world.blocking own = none := by
  obtain ⟨hexec, hold | hadmits | hclaims⟩ := executing_call_self hp hexecuting
  · exact .inl hold
  · obtain ⟨own, claims, requestHash, rfl, -⟩ := admits_eq_true hadmits
    have hblocking : c.world.blocking own = none := by
      simp only [World.serve] at hadmits
      split at hadmits
      · cases hadmits
      · assumption
    obtain ⟨r', spec', hreq, hchecked, hown, -⟩ := hallowed
    obtain ⟨rfl, rfl⟩ := hexec.unique ⟨hreq, hchecked.spec_eq⟩
    exact .inr ⟨own, claims, requestHash, rfl, hexec, hown, hblocking⟩
  · -- a mutating action was admitted before it claims
    obtain ⟨t, digest, executor, rfl, -⟩ := claims_eq_true hclaims
    obtain ⟨r', spec', hreq, hchecked, -, -, hadmitted, -, hreleased⟩ := hallowed
    obtain ⟨rfl, rfl⟩ := hexec.unique ⟨hreq, hchecked.spec_eq⟩
    exact .inl ⟨p, hp, hexec, .inl (hadmitted.trans hmutating), hreleased⟩

/-- What the gate lets in finds no system-class execution in flight. -/
theorem SlotsHeld.not_system (hc : SlotsHeld c) (hsound : AllSound c) {i : ℕ} {r : ExecuteRequest}
    {spec : ActionSpec} {own : Option ExclusiveResource} (hblocking : c.world.blocking own = none)
    (hexecuting : Executing c i r spec) : isHighRiskReboot spec = false := by
  cases hhigh : isHighRiskReboot spec with
  | false => rfl
  | true =>
    have hholding := holding_of_executing hsound hexecuting (system_mem_toClaim_iff.mpr hhigh)
    exact absurd hholding (hc.not_blocked hblocking (.inl rfl))

/-- A system-class execution that the gate lets in, and that the gate sees everything for, finds
no mutating execution in flight. -/
theorem SlotsHeld.not_mutating (hc : SlotsHeld c) (hsound : AllSound c) {i : ℕ}
    {s : ExecuteRequest} {spec spec' : ActionSpec}
    (hblocking : c.world.blocking (exclusiveResource spec) = none)
    (hexecuting : Executing c i s spec')
    (hseen : isMutating d s.actionName spec' = true → isHighRiskReboot spec' = true ∨
      ∃ res, exclusiveResource spec = some res ∧ exclusiveResource spec' = some res) :
    isMutating d s.actionName spec' = false := by
  cases hmutating : isMutating d s.actionName spec' with
  | false => rfl
  | true =>
    rcases hseen hmutating with hhigh | ⟨res, hown, hown'⟩
    · rw [hc.not_system hsound hblocking hexecuting] at hhigh
      cases hhigh
    · have hholding := holding_of_executing hsound hexecuting
        (mem_toClaim_iff.mpr ⟨hmutating, .inr hown'⟩)
      exact absurd hholding (hc.not_blocked hblocking (.inr hown))

theorem SystemAlone.call (hc : SystemAlone c) (hslots : SlotsHeld c) (hsound : AllSound c)
    (hseen : SeenByGate c (.act pid choice)) (hp : c.procs[pid]? = some p)
    (hprog : p.program = .call op k) (hallowed : Allowed d p.request (progress d p) op) :
    SystemAlone (c.call pid choice p op k) := by
  intro i j r s spec spec' hne hi hj hhigh
  by_contra hmutating
  rw [Bool.not_eq_false] at hmutating
  have hold {i : ℕ} {r : ExecuteRequest} {spec : ActionSpec} (hi' : i ≠ pid)
      (hi : Executing (c.call pid choice p op k) i r spec) : Executing c i r spec :=
    (executing_call_of_ne hi').mp hi
  have halone (hi : Executing c i r spec) (hj : Executing c j s spec') : False := by
    rw [hc i j r s spec spec' hne hi hj hhigh] at hmutating
    cases hmutating
  by_cases hi' : i = pid
  · subst hi'
    have hjold := hold hne.symm hj
    rcases executing_or_gate hp hallowed hi (isMutating_of_isHighRiskReboot hhigh) with
      hiold | ⟨own, claims, requestHash, rfl, hexec, rfl, hblocking⟩
    · exact halone hiold hjold
    · rw [hslots.not_mutating hsound hblocking hjold fun hmut =>
        hseen p r spec _ claims requestHash k hp hexec hprog hhigh j s spec' hne.symm hjold hmut]
        at hmutating
      cases hmutating
  · have hiold := hold hi' hi
    by_cases hj' : j = pid
    · subst hj'
      rcases executing_or_gate hp hallowed hj hmutating with
        hjold | ⟨own, claims, requestHash, rfl, -, -, hblocking⟩
      · exact halone hiold hjold
      · rw [hslots.not_system hsound hblocking hiold] at hhigh
        cases hhigh
    · exact halone hiold (hold hj' hj)

theorem SystemAlone.arrive (hc : SystemAlone c) (req : Request) : SystemAlone (c.arrive req) := by
  have hold {i : ℕ} {r : ExecuteRequest} {spec : ActionSpec}
      (hi : Executing (c.arrive req) i r spec) : Executing c i r spec := by
    obtain ⟨p, hp, hexec, hflight, hreleased⟩ := hi
    rcases System.getElem?_arrive hp with hp | ⟨-, rfl⟩
    · exact ⟨p, hp, hexec, hflight, hreleased⟩
    · rcases hflight with h | h <;> cases h
  exact fun i j r s spec spec' hne hi hj => hc i j r s spec spec' hne (hold hi) (hold hj)

/-- **System exclusivity.** In every run in which the gate sees everything in flight whenever a
system-class execution comes to it: while a system-class execution is in flight, no other
mutating one is, and a system-class execution is let in only when no mutating one is in
flight. -/
theorem system_exclusive (events : List d.system.Event) (hseen : System.Along SeenByGate events) :
    SystemAlone (d.system.run events) ∧
    ∀ (pid : ℕ) choice p r spec own claims requestHash k,
      (d.system.run events).procs[pid]? = some p → Executes p r spec →
      p.program = .call (.enterGate own claims requestHash) k → isHighRiskReboot spec = true →
      SeenByGate (d.system.run events) (.act pid choice) →
      (d.system.run events).world.blocking own = none →
      ∀ j s spec', j ≠ pid → Executing (d.system.run events) j s spec' →
        isMutating d s.actionName spec' = false := by
  constructor
  · have hinvariant := daemon_induction (d := d) (R := SeenByGate)
      (P := fun c => SlotsHeld c ∧ AllSound c ∧ SystemAlone c)
      ⟨slotsHeld_initial, allSound_initial, fun i j r s spec spec' _ hi => ?_⟩
      (fun c req hc => ⟨hc.1.arrive req, hc.2.1.arrive req, hc.2.2.arrive req⟩)
      (fun c pid choice p op k hc hR hp hprog hallowed =>
        ⟨hc.1.call hp hallowed, hc.2.1.call hp hallowed,
          hc.2.2.call hc.1 hc.2.1 hR hp hprog hallowed⟩) events hseen
    · exact hinvariant.2.2
    · obtain ⟨p, hp, -⟩ := hi
      simp at hp
  · intro pid choice p r spec own claims requestHash k hp hexec hprog hhigh hR hblocking
      j s spec' hne hj
    obtain ⟨r', spec'', hreq, hchecked, hown, -⟩ := allowed_of_next events hp hprog
    obtain ⟨rfl, rfl⟩ := hexec.unique ⟨hreq, hchecked.spec_eq⟩
    subst hown
    exact (slotsHeld_run events).not_mutating (allSound_run events) hblocking hj fun hmut =>
      hR p r spec _ claims requestHash k hp hexec hprog hhigh j s spec' hne hj hmut

end Slots

/-! ### Sample runs -/

/-- A few actions of the catalogue. -/
def sampleSpec (actionName : String) (params : Value) : Except ExecutorError ActionSpec :=
  if actionName = "GetSystemState" then
    .ok ⟨actionName, .command "rpm-ostree" ["status", "--json"], .low, false, false⟩
  else if actionName = "UpdateSystem" then
    .ok ⟨actionName, .command "sudo" ["rpm-ostree", "upgrade"], .high, true, true⟩
  else if actionName = "AptAutoremove" then
    .ok ⟨actionName, .command "sudo" ["/usr/lib/sysknife/action-steps", "apt", "autoremove"],
      .medium, false, false⟩
  else if actionName = "StartService" then
    match (params.get "unit").bind Value.asStr with
    | some unit =>
      .ok ⟨actionName, .command "sudo" ["/usr/lib/sysknife/action-steps", "unit", "start", unit],
        .medium, false, false⟩
    | none => .error (.missingParam "unit")
  else .error (.unknownAction actionName)

/-- Their static metadata. -/
def sampleMeta (actionName : String) : Option SpecMeta :=
  if actionName = "GetSystemState" then some ⟨.low, false, false⟩
  else if actionName = "UpdateSystem" then some ⟨.high, true, true⟩
  else if actionName = "AptAutoremove" ∨ actionName = "StartService" then
    some ⟨.medium, false, false⟩
  else none

/-- A daemon on a host that supports the given actions. -/
def sampleDaemon (supported : List String) : Daemon where
  store := sampleEnv
  specMeta := sampleMeta
  policy := .empty
  hmac bytes := 90 :: bytes
  buildActionSpec := sampleSpec
  validateActionPlatform actionName :=
    if actionName ∈ supported then .ok ()
    else .error ("action " ++ actionName ++ " is incompatible with supported host")
  previewAction request currentState proposedChange :=
    ⟨request.actionName, .medium, currentState, proposedChange, [], false, false, [],
      request.requestHash⟩
  redactParams _ params := params
  parseJson _ := .error "EOF while parsing a value"

/-- A host with deployments. -/
def atomicHost : Daemon := sampleDaemon ["GetSystemState", "UpdateSystem", "StartService"]

/-- Nothing fails, and every action exits cleanly. -/
def sampleChoice : Choice where
  clock := sampleClock
  fault := none
  uuid := "tx-1"
  sent := .ok ()
  collected := .ok (.bool true)
  output := .ok ""
  progress := []
  result := .ok ⟨"", "", 0⟩

/-- An administrator. -/
def sampleCaller : CallerAttribution := .fromPeerUid 1000 .admin

/-- The `execute` that follows a preview and an approval. -/
def sampleExecute (d : Daemon) (transactionId actionName : String) (params : Value) :
    ExecuteRequest :=
  ⟨sampleCaller, "req", transactionId, actionName, params,
    Audit.sampleKey.approvalReceipt transactionId (computeRequestHash d actionName params)⟩

/-- The process `pid` makes `n` calls. -/
def acts {d : Daemon} (pid n : ℕ) (choice : Choice) : List d.system.Event :=
  List.replicate n (.act pid choice)

/-- One transaction is previewed and approved by the processes `pid` and `pid + 1`, and its
execution, the process `pid + 2`, arrives. -/
def prepared {d : Daemon} (pid : ℕ) (transactionId actionName : String) (params : Value) :
    List d.system.Event :=
  .arrive (.preview ⟨sampleCaller, "req", actionName, params, false⟩) ::
    acts pid 3 { sampleChoice with uuid := transactionId } ++
  .arrive (.approve ⟨sampleCaller, "req", transactionId⟩) :: acts (pid + 1) 4 sampleChoice ++
  [.arrive (.execute (sampleExecute d transactionId actionName params))]

/-- A service being started, while an upgrade comes in and passes the gate. -/
def lateUpgrade : List atomicHost.system.Event :=
  prepared 0 "tx-1" "StartService" (.obj [("unit", .str "sshd.service")]) ++
    acts 2 9 sampleChoice ++ prepared 3 "tx-2" "UpdateSystem" (.obj []) ++ acts 5 4 sampleChoice

/-- What is in flight is read off the flags of a process. -/
theorem executing_of_flags {d : Daemon} {events : List d.system.Event} {i : ℕ} {r : ExecuteRequest}
    {spec : ActionSpec} (hreq : (System.arrivals events)[i]? = some (.execute r))
    (hspec : d.buildActionSpec r.actionName r.params = .ok spec)
    (hflags : ((d.system.run events).procs[i]?.map fun p =>
      ((progress d p).admitted || (progress d p).claimed) && !(progress d p).released) =
        some true) :
    Executing (d.system.run events) i r spec := by
  rw [← System.requests_run, List.getElem?_map] at hreq
  obtain ⟨p, hp, hr⟩ := Option.map_eq_some_iff.mp hreq
  rw [hp, Option.map_some, Option.some.injEq, Bool.and_eq_true, Bool.or_eq_true,
    Bool.not_eq_true'] at hflags
  exact ⟨p, hp, ⟨hr, hspec⟩, hflags⟩

/-- An upgrade is let in while a service is being started: the gate does not see an execution
that holds no slot. -/
theorem lateUpgrade_not_alone : ¬ SystemAlone (atomicHost.system.run lateUpgrade) := by
  intro halone
  have hstart : Executing (atomicHost.system.run lateUpgrade) 2
      (sampleExecute atomicHost "tx-1" "StartService" (.obj [("unit", .str "sshd.service")])) _ :=
    executing_of_flags rfl rfl (by decide +kernel)
  have hupgrade : Executing (atomicHost.system.run lateUpgrade) 5
      (sampleExecute atomicHost "tx-2" "UpdateSystem" (.obj [])) _ :=
    executing_of_flags rfl rfl (by decide +kernel)
  have hmutating := halone 5 2 _ _ _ _ (by decide) hupgrade hstart (by decide)
  revert hmutating
  decide

/-- Two executions that only read the deployments, both under way. -/
def twoReads : List atomicHost.system.Event :=
  prepared 0 "tx-1" "GetSystemState" (.obj []) ++ acts 2 8 sampleChoice ++
    prepared 3 "tx-2" "GetSystemState" (.obj []) ++ acts 5 8 sampleChoice

/-- Read-only executions of one resource are in flight together: they skip the gate. -/
theorem twoReads_in_flight : ∃ r s spec,
    Executing (atomicHost.system.run twoReads) 2 r spec ∧
      Executing (atomicHost.system.run twoReads) 5 s spec ∧
      exclusiveResource spec = some .rpmOstree := by
  refine ⟨sampleExecute atomicHost "tx-1" "GetSystemState" (.obj []),
    sampleExecute atomicHost "tx-2" "GetSystemState" (.obj []), _,
    executing_of_flags rfl rfl (by decide +kernel), executing_of_flags rfl rfl (by decide +kernel),
    by decide⟩

/-- An upgrade under way, and a service that has to wait for it. -/
def upgradeFirst : List atomicHost.system.Event :=
  prepared 0 "tx-1" "UpdateSystem" (.obj []) ++ acts 2 9 sampleChoice ++
    prepared 3 "tx-2" "StartService" (.obj [("unit", .str "sshd.service")]) ++
    acts 5 4 sampleChoice

/-- The service is kept out: whenever something is in flight, it is the upgrade. -/
theorem upgradeFirst_alone : System.Along SeenByGate upgradeFirst ∧
    Executing (atomicHost.system.run upgradeFirst) 2
      (sampleExecute atomicHost "tx-1" "UpdateSystem" (.obj []))
      ⟨"UpdateSystem", .command "sudo" ["rpm-ostree", "upgrade"], .high, true, true⟩ ∧
    SystemAlone (atomicHost.system.run upgradeFirst) := by
  have hwaits : ∀ n ≤ upgradeFirst.length,
      ((((atomicHost.system.run (upgradeFirst.take n)).procs.map fun p =>
        (progress atomicHost p).admitted || (progress atomicHost p).claimed).set 2 false).all
          (! ·)) = true := by
    decide +kernel
  have hseen : System.Along SeenByGate upgradeFirst := by
    intro pre e post heq
    have htake : pre = upgradeFirst.take pre.length := by rw [heq]; simp
    cases e with
    | arrive req => trivial
    | act pid choice =>
      intro p r spec own claims requestHash k _ _ _ _ j s spec' _ hj _
      obtain ⟨q, hq, ⟨hreq, hspec⟩, hflight, -⟩ := hj
      have hj : j = 2 := by
        by_contra hne
        have hnone := hwaits pre.length (by rw [heq]; simp)
        rw [← htake, List.all_eq_true] at hnone
        have hmem := List.mem_of_getElem? (l := (List.map (fun p =>
          (progress atomicHost p).admitted || (progress atomicHost p).claimed)
            (atomicHost.system.run pre).procs).set 2 false) (i := j) (a := true) (by
              rw [List.getElem?_set_ne (Ne.symm hne), List.getElem?_map, hq, Option.map_some,
                Option.some.injEq, Bool.or_eq_true]
              exact hflight)
        exact absurd (hnone true hmem) (by decide)
      -- the process that is in flight is the upgrade
      have harrival : (System.arrivals upgradeFirst)[2]? = some (.execute s) := by
        rw [heq, System.arrivals, List.filterMap_append, ← System.arrivals, ← System.requests_run]
        rw [hj] at hq
        have hlt : 2 < (atomicHost.system.run pre).procs.length :=
          (List.getElem?_eq_some_iff.mp hq).1
        rw [List.getElem?_append_left (by simpa using hlt), List.getElem?_map, hq, Option.map_some,
          hreq]
      have hs : s = sampleExecute atomicHost "tx-1" "UpdateSystem" (.obj []) :=
        (Request.execute.inj (Option.some.inj harrival)).symm
      rw [hs] at hspec
      obtain rfl := Except.ok.inj hspec
      exact .inl (by decide)
  exact ⟨hseen, executing_of_flags rfl rfl (by decide +kernel),
    (system_exclusive upgradeFirst hseen).1⟩

/-- The service's handler has returned; the slot that is occupied is the upgrade's. -/
theorem upgradeFirst_slots :
    (atomicHost.system.run upgradeFirst).world.runningExclusive .system =
        some (computeRequestHash atomicHost "UpdateSystem" (.obj [])) ∧
      ∃ j, j ≠ 5 ∧ Holding (atomicHost.system.run upgradeFirst) j .system
        (computeRequestHash atomicHost "UpdateSystem" (.obj [])) := by
  have hslot : (atomicHost.system.run upgradeFirst).world.runningExclusive .system =
      some (computeRequestHash atomicHost "UpdateSystem" (.obj [])) := by
    decide +kernel
  have hreturned : ((atomicHost.system.run upgradeFirst).procs[5]?.map fun p =>
      (match p.program with
        | .pure _ => true
        | .call _ _ => false, (progress atomicHost p).result.isNone)) = some (true, true) := by
    decide +kernel
  obtain ⟨p, hp, hflags⟩ := Option.map_eq_some_iff.mp hreturned
  rw [Prod.mk.injEq, Option.isNone_iff_eq_none] at hflags
  have hdone : p.program = .pure () := by
    cases hprog : p.program with
    | pure a => rfl
    | call op k =>
      rw [hprog] at hflags
      cases hflags.1
  refine ⟨hslot, ?_⟩
  exact ((exclusive_slots upgradeFirst).2.2 5 p .system _ hp hdone
    (fun result hresult => by rw [hflags.2] at hresult; cases hresult)).2 hslot

end Sysknife.Dispatcher
