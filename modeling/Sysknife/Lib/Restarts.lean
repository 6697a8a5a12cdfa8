import Mathlib.Data.List.Basic
import Sysknife.Lib.Prog

/-!
# Services that start anew

The processes of a system live no longer than the service that runs them. At a **restart** every
process is gone, wherever it stood, and the service begins again with what its recovery
(`Recovery`) makes of the world it finds. An `Age` is what has come of this so far: the
configuration of the current life, and the processes of the earlier ones with the calls they
made.

* `step_cases` says once what an event can do.
* `Age.later_induction`: what survives arrivals, *allowed* calls and restarts holds from any age
  on whose processes keep to their monitor; `Recovery.lives_induction` is the case of a service
  that starts for the first time.
-/

namespace System

variable {Op : Type} {Res : Op → Type} {S : System Op Res}

/-! ### What an event can do -/

/-- An event changes nothing, brings a request, or is a call of a process. -/
theorem step_cases (c : S.Config) (e : S.Event) : step c e = c ∨
    (∃ request, e = .arrive request ∧ step c e = c.arrive request) ∨
    ∃ pid choice p op k, e = .act pid choice ∧ c.procs[pid]? = some p ∧
      p.program = .call op k ∧ step c e = c.call pid choice p op k := by
  cases e with
  | arrive request => exact .inr (.inl ⟨request, rfl, rfl⟩)
  | act pid choice =>
    rw [step]
    split
    · exact .inl rfl
    · rename_i p hp
      split
      · exact .inl rfl
      · rename_i op k hprogram
        exact .inr (.inr ⟨pid, choice, p, op, k, rfl, hp, hprogram, rfl⟩)

section Monitored

variable {M : Monitor Op Res} {start : S.Request → M.State} {post : M.State → Unit → Prop}

/-- No process yet. -/
theorem monitored_nil (w : S.World) : Monitored M start post (⟨w, []⟩ : S.Config) := by
  intro i p hp
  simp at hp

/-- Processes that keep to their monitor go on doing so. -/
theorem Monitored.step (hprogram : ∀ req, M.Obeys post (S.program req) (start req))
    {c : S.Config} (hc : Monitored M start post c) (e : S.Event) :
    Monitored M start post (step c e) := by
  rcases step_cases c e with hsame | ⟨request, -, harrive⟩ |
    ⟨pid, choice, p, op, k, -, hp, hprog, hcall⟩
  · rw [hsame]
    exact hc
  · rw [harrive]
    intro i q hq
    rcases getElem?_arrive hq with hold | ⟨-, rfl⟩
    · exact hc i q hold
    · exact hprogram request
  · rw [hcall]
    intro i q hq
    by_cases hi : i = pid
    · subst hi
      rw [getElem?_call_self hp] at hq
      obtain rfl := Option.some.inj hq
      have hobeys := hc i p hp
      rw [hprog] at hobeys
      rw [M.after_concat]
      exact hobeys.2 _
    · rw [getElem?_call_of_ne hi] at hq
      exact hc i q hq

end Monitored

/-! ### Lives -/

variable (S) in
/-- What a service makes of the world it finds when it starts. -/
structure Recovery where
  /-- What the outside decides at a start. -/
  Start : Type
  recover : S.World → Start → S.World

variable (S) in
/-- The processes of earlier lives, and the current life. -/
structure Age where
  dead : List S.Process
  now : S.Config

/-- All processes there ever were. -/
def Age.all (a : S.Age) : List S.Process := a.dead ++ a.now.procs

/-- What happens in a life, or ends it. -/
inductive Incident (R : S.Recovery)
  | event (e : S.Event)
  | restart (start : R.Start)

variable {R : S.Recovery}

/-- An event of the current life. -/
def Age.step (a : S.Age) (e : S.Event) : S.Age := { a with now := System.step a.now e }

/-- Nothing is left of the current life but what its processes did, and the world. -/
def Age.restart (a : S.Age) (start : R.Start) : S.Age where
  dead := a.all
  now := ⟨R.recover a.now.world start, []⟩

/-- One incident. -/
def Age.after (a : S.Age) : Incident R → S.Age
  | .event e => a.step e
  | .restart start => a.restart start

/-- The age after a sequence of incidents. -/
def Age.later (a : S.Age) (incidents : List (Incident R)) : S.Age := incidents.foldl Age.after a

variable (S) in
/-- The service starts for the first time. -/
def Age.first : S.Age := ⟨[], ⟨S.initial, []⟩⟩

variable (R) in
/-- The age after a sequence of incidents from the first start on. -/
def Recovery.lives (incidents : List (Incident R)) : S.Age := (Age.first S).later incidents

theorem Age.later_concat (a : S.Age) (incidents : List (Incident R)) (i : Incident R) :
    a.later (incidents ++ [i]) = (a.later incidents).after i := by
  simp [later]

theorem Recovery.lives_append (incidents incidents' : List (Incident R)) :
    R.lives (incidents ++ incidents') = (R.lives incidents).later incidents' := by
  simp [lives, Age.later]

/-- After a restart it goes on with the recovered world. -/
theorem Recovery.lives_restart (before after : List (Incident R)) (start : R.Start) :
    R.lives (before ++ .restart start :: after) =
      ((R.lives before).restart start).later after :=
  lives_append before (.restart start :: after)

/-- A process of the current life is one of all. -/
theorem Age.mem_all_of_now {a : S.Age} {i : ℕ} {p : S.Process} (hp : a.now.procs[i]? = some p) :
    p ∈ a.all :=
  List.mem_append_right _ (List.mem_of_getElem? hp)

@[simp] theorem Age.all_restart (a : S.Age) (start : R.Start) : (a.restart start).all = a.all :=
  List.append_nil _

/-! ### A census of the processes -/

section Census

variable {a : S.Age} {pid : ℕ} {choice : S.Choice} {p : S.Process} {op : Op}
  {k : Res op → Prog Op Res Unit}

/-- What a process is after its call. -/
def Process.next (p : S.Process) (op : Op) (answer : Res op) (k : Res op → Prog Op Res Unit) :
    S.Process :=
  ⟨p.request, k answer, p.history ++ [⟨op, answer⟩]⟩

theorem Config.procs_call (c : S.Config) : (c.call pid choice p op k).procs =
    c.procs.set pid (p.next op (S.answer c.world choice op).1 k) := rfl

theorem Config.next_mem_procs_call {c : S.Config} (choice : S.Choice)
    (hp : c.procs[pid]? = some p) :
    p.next op (S.answer c.world choice op).1 k ∈ (c.call pid choice p op k).procs :=
  List.mem_of_getElem? (getElem?_call_self hp)

/-- A process other than the one that makes a call stays. -/
theorem Config.mem_procs_call_of_ne {c : S.Config} (choice : S.Choice)
    (hp : c.procs[pid]? = some p) {q : S.Process} (hq : q ∈ c.procs) (hne : q ≠ p) :
    q ∈ (c.call pid choice p op k).procs := by
  obtain ⟨i, hi⟩ := List.getElem?_of_mem hq
  have hpid : i ≠ pid := by
    rintro rfl
    exact hne (Option.some.inj (hi.symm.trans hp))
  exact List.mem_of_getElem? ((getElem?_call_of_ne hpid).trans hi)

/-- A process after a call is an old one or the one that made it. -/
theorem Age.mem_all_call {q : S.Process}
    (hq : q ∈ Age.all { a with now := a.now.call pid choice p op k }) :
    q ∈ a.all ∨ q = p.next op (S.answer a.now.world choice op).1 k := by
  rcases List.mem_append.mp hq with hdead | hnow
  · exact .inl (List.mem_append_left _ hdead)
  · rcases List.mem_or_eq_of_mem_set hnow with hold | rfl
    · exact .inl (List.mem_append_right _ hold)
    · exact .inr rfl

theorem Age.mem_all_arrive {request : S.Request} {q : S.Process}
    (hq : q ∈ Age.all { a with now := a.now.arrive request }) :
    q ∈ a.all ∨ q = ⟨request, S.program request, []⟩ := by
  rw [all, Config.arrive, ← List.append_assoc] at hq
  rcases List.mem_append.mp hq with hold | hnew
  · exact .inl hold
  · exact .inr (List.mem_singleton.mp hnew)

/-- A call changes the census by the process that makes it. -/
theorem Age.countP_all_call (choice : S.Choice) (hp : a.now.procs[pid]? = some p)
    (test : S.Process → Bool) :
    (Age.all { a with now := a.now.call pid choice p op k }).countP test + (test p).toNat =
      a.all.countP test + (test (p.next op (S.answer a.now.world choice op).1 k)).toNat := by
  obtain ⟨hlt, rfl⟩ := List.getElem?_eq_some_iff.mp hp
  have hle : (test a.now.procs[pid]).toNat ≤ a.now.procs.countP test := by
    cases htest : test a.now.procs[pid] with
    | false => exact Nat.zero_le _
    | true => exact List.countP_pos_iff.mpr ⟨_, List.getElem_mem hlt, htest⟩
  have htoNat (b : Bool) : (if b = true then 1 else 0) = b.toNat := by
    cases b
    · rfl
    · rfl
  simp only [all, Config.procs_call, List.countP_append, List.countP_set hlt, htoNat]
  omega

theorem Age.countP_all_arrive (request : S.Request) (test : S.Process → Bool) :
    (Age.all { a with now := a.now.arrive request }).countP test =
      a.all.countP test + (test ⟨request, S.program request, []⟩).toNat := by
  rw [all, Config.arrive, ← List.append_assoc, List.countP_append, List.countP_singleton]
  cases test ⟨request, S.program request, []⟩ with
  | false => rfl
  | true => rfl

end Census

section Induction

variable {M : Monitor Op Res} {start : S.Request → M.State} {post : M.State → Unit → Prop}

/-- Processes keep to their monitor in every life. -/
theorem Age.monitored_later (hprogram : ∀ req, M.Obeys post (S.program req) (start req))
    {a : S.Age} (ha : Monitored M start post a.now) (incidents : List (Incident R)) :
    Monitored M start post (a.later incidents).now := by
  induction incidents using List.reverseRecOn with
  | nil => exact ha
  | append_singleton incidents i ih =>
    rw [later_concat]
    cases i with
    | event e => exact ih.step hprogram e
    | restart s => exact monitored_nil _

/-- **The invariant rule, over restarts.** What survives arrivals, the calls its monitor allows,
and the restarts that happen, holds later if it holds now. -/
theorem Age.later_induction (hprogram : ∀ req, M.Obeys post (S.program req) (start req))
    {P : S.Age → Prop} {a : S.Age} (ha : Monitored M start post a.now) (hnow : P a)
    {incidents : List (Incident R)}
    (harrive : ∀ (a : S.Age) req, P a → P { a with now := a.now.arrive req })
    (hcall : ∀ (a : S.Age) pid choice p op k, P a → a.now.procs[pid]? = some p →
      p.program = .call op k → M.allowed (M.after (start p.request) p.history) op →
      P { a with now := a.now.call pid choice p op k })
    (hrestart : ∀ (a : S.Age) s, .restart s ∈ incidents → P a → P (a.restart (R := R) s)) :
    P (a.later incidents) := by
  induction incidents using List.reverseRecOn with
  | nil => exact hnow
  | append_singleton incidents i ih =>
    have hlast := ih fun a s hs => hrestart a s (List.mem_append_left _ hs)
    rw [later_concat]
    cases i with
    | restart s => exact hrestart _ s (List.mem_append_right _ (List.mem_singleton.mpr rfl)) hlast
    | event e =>
      have hmon := Age.monitored_later hprogram ha incidents
      rw [Age.after, Age.step]
      rcases step_cases (a.later incidents).now e with hsame | ⟨request, -, heq⟩ |
        ⟨pid, choice, p, op, k, -, hp, hprog, heq⟩
      · rw [hsame]
        exact hlast
      · rw [heq]
        exact harrive _ request hlast
      · rw [heq]
        have hobeys := hmon pid p hp
        rw [hprog] at hobeys
        exact hcall _ pid choice p op k hlast hp hprog hobeys.1

/-- The rule for a service that starts for the first time. -/
theorem Recovery.lives_induction (hprogram : ∀ req, M.Obeys post (S.program req) (start req))
    {P : S.Age → Prop} (hfirst : P (Age.first S)) {incidents : List (Incident R)}
    (harrive : ∀ (a : S.Age) req, P a → P { a with now := a.now.arrive req })
    (hcall : ∀ (a : S.Age) pid choice p op k, P a → a.now.procs[pid]? = some p →
      p.program = .call op k → M.allowed (M.after (start p.request) p.history) op →
      P { a with now := a.now.call pid choice p op k })
    (hrestart : ∀ (a : S.Age) s, .restart s ∈ incidents → P a → P (a.restart (R := R) s)) :
    P (R.lives incidents) :=
  Age.later_induction hprogram (monitored_nil _) hfirst harrive hcall hrestart

end Induction

end System
