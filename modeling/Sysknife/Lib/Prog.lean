import Mathlib.Data.List.Basic
import Mathlib.Data.List.Induction

/-!
# Concurrent programs over an environment

A **program** (`Prog`) is a tree of calls to an environment: it issues an operation and goes on
with the answer. A **system** (`System`) runs any number of programs, one for each request
that arrives, against a shared world; a step lets one program make its next call, which the
world answers at once. So a call is the unit of interleaving, and a run is determined by the
order in which requests arrive and programs act, and by what the outside decides at each call
(`Choice`).

Programs are specified by a **monitor**: an automaton that reads a program's calls with their
answers and says which calls it allows. `Obeys` is the weakest precondition of a program for a
monitor; it composes along `bind` (`obeys_bind`).

* `Prog.Traces.allowed`: every call of a program that runs on its own was allowed, and
  `Prog.Completes.post`: it comes to what its specification asks.
* `System.obeys_run`: in every run, what is left of each program obeys its monitor from the
  state its own calls led to.
* `System.run_induction`: an invariant of configurations holds in every run if it survives
  arrivals and *allowed* calls.
-/

/-- Programs that call operations `Op` answered by `Res`. -/
inductive Prog (Op : Type) (Res : Op → Type) (α : Type) : Type
  /-- The program has finished. -/
  | pure (a : α)
  /-- The program calls `op` and goes on with the answer. -/
  | call (op : Op) (k : Res op → Prog Op Res α)

namespace Prog

variable {Op : Type} {Res : Op → Type} {α β : Type}

/-- Sequential composition. -/
def bind : Prog Op Res α → (α → Prog Op Res β) → Prog Op Res β
  | .pure a, f => f a
  | .call op k, f => .call op fun r => (k r).bind f

instance : Monad (Prog Op Res) where
  pure := .pure
  bind := bind

/-- Make one call. -/
def perform (op : Op) : Prog Op Res (Res op) := .call op .pure

@[simp] theorem pure_bind (a : α) (f : α → Prog Op Res β) : (Prog.pure a >>= f) = f a := rfl

@[simp] theorem call_bind (op : Op) (k : Res op → Prog Op Res α) (f : α → Prog Op Res β) :
    (Prog.call op k >>= f) = .call op fun r => k r >>= f := rfl

end Prog

/-- One call with its answer. -/
abbrev Call (Op : Type) (Res : Op → Type) := (op : Op) × Res op

/-- An automaton that reads the calls of one program. -/
structure Monitor (Op : Type) (Res : Op → Type) where
  State : Type
  /-- The state after a call and its answer. -/
  next : State → (op : Op) → Res op → State
  /-- The calls that may be made. -/
  allowed : State → Op → Prop

namespace Monitor

variable {Op : Type} {Res : Op → Type} {α β : Type} (M : Monitor Op Res)

/-- The state after a sequence of calls. -/
def after (g : M.State) (calls : List (Call Op Res)) : M.State :=
  calls.foldl (fun g c => M.next g c.1 c.2) g

@[simp] theorem after_nil (g : M.State) : M.after g [] = g := rfl

@[simp] theorem after_concat (g : M.State) (calls : List (Call Op Res)) (c : Call Op Res) :
    M.after g (calls ++ [c]) = M.next (M.after g calls) c.1 c.2 := by
  simp [after]

/-- Weakest precondition: whatever the answers, every call is allowed, and the result is as
`post` asks. -/
def Obeys (post : M.State → α → Prop) : Prog Op Res α → M.State → Prop
  | .pure a, g => post g a
  | .call op k, g => M.allowed g op ∧ ∀ r, Obeys post (k r) (M.next g op r)

variable {M} {post : M.State → α → Prop} {g : M.State}

theorem Obeys.mono {post' : M.State → α → Prop} {p : Prog Op Res α} (h : M.Obeys post p g)
    (hpost : ∀ g a, post g a → post' g a) : M.Obeys post' p g := by
  induction p generalizing g with
  | pure a => exact hpost g a h
  | call op k ih => exact ⟨h.1, fun r => ih r (h.2 r)⟩

/-- The rule of sequential composition. -/
theorem obeys_bind {p : Prog Op Res α} {f : α → Prog Op Res β} {post : M.State → β → Prop}
    (h : M.Obeys (fun g a => M.Obeys post (f a) g) p g) : M.Obeys post (p >>= f) g := by
  induction p generalizing g with
  | pure a => exact h
  | call op k ih => exact ⟨h.1, fun r => ih r (h.2 r)⟩

/-- The rule of a call with something to follow. -/
theorem obeys_perform_bind {op : Op} {f : Res op → Prog Op Res β} {post : M.State → β → Prop}
    (hallowed : M.allowed g op) (hrest : ∀ r, M.Obeys post (f r) (M.next g op r)) :
    M.Obeys post (Prog.perform op >>= f) g :=
  ⟨hallowed, hrest⟩

/-- The rule of a last call. -/
theorem obeys_perform {op : Op} {post : M.State → Res op → Prop} (hallowed : M.allowed g op)
    (hpost : ∀ r, post (M.next g op r) r) : M.Obeys post (Prog.perform op) g :=
  ⟨hallowed, hpost⟩

end Monitor

/-! ### Programs without certain calls -/

namespace Prog

variable {Op : Type} {Res : Op → Type} {α β : Type} {Q : Op → Prop}

/-- Whatever the answers, the program only makes calls of one kind. -/
def Only (Q : Op → Prop) : Prog Op Res α → Prop
  | .pure _ => True
  | .call op k => Q op ∧ ∀ r, Only Q (k r)

theorem Only.bind {p : Prog Op Res α} {f : α → Prog Op Res β} (hp : p.Only Q)
    (hf : ∀ a, (f a).Only Q) : (p >>= f).Only Q := by
  induction p with
  | pure a => exact hf a
  | call op k ih => exact ⟨hp.1, fun r => ih r (hp.2 r)⟩

theorem only_perform {op : Op} (hop : Q op) : (perform op : Prog Op Res (Res op)).Only Q :=
  ⟨hop, fun _ => trivial⟩

theorem only_perform_bind {op : Op} {f : Res op → Prog Op Res β} (hop : Q op)
    (hf : ∀ r, (f r).Only Q) : (perform op >>= f).Only Q :=
  ⟨hop, hf⟩

/-- A condition on the state that calls of the kind are allowed under and keep, holds when they
are done. -/
theorem Only.obeys {M : Monitor Op Res} {I : M.State → Prop} {p : Prog Op Res α} (hp : p.Only Q)
    (hstep : ∀ g op, I g → Q op → M.allowed g op ∧ ∀ r, I (M.next g op r)) {g : M.State}
    (hg : I g) : M.Obeys (fun g _ => I g) p g := by
  induction p generalizing g with
  | pure a => exact hg
  | call op k ih =>
    obtain ⟨hallowed, hkept⟩ := hstep g op hg hp.1
    exact ⟨hallowed, fun r => ih r (hp.2 r) (hkept r)⟩

/-- A beginning that only makes calls of the kind is passed over. -/
theorem Only.obeys_bind {M : Monitor Op Res} {I : M.State → Prop} {post : M.State → β → Prop}
    {p : Prog Op Res α} {f : α → Prog Op Res β} (hp : p.Only Q)
    (hstep : ∀ g op, I g → Q op → M.allowed g op ∧ ∀ r, I (M.next g op r)) {g : M.State}
    (hg : I g) (hf : ∀ g a, I g → M.Obeys post (f a) g) : M.Obeys post (p >>= f) g :=
  Monitor.obeys_bind ((hp.obeys hstep hg).mono fun g a hg => hf g a hg)

end Prog

/-- The monitor that remembers every call: what is allowed is a matter of whom the program
serves and of the calls it made. -/
@[reducible] def Monitor.recording {Op : Type} {Res : Op → Type} {ι : Type}
    (A : ι → List (Call Op Res) → Op → Prop) : Monitor Op Res where
  State := ι × List (Call Op Res)
  next s op r := (s.1, s.2 ++ [⟨op, r⟩])
  allowed s op := A s.1 s.2 op

theorem Monitor.after_recording {Op : Type} {Res : Op → Type} {ι : Type}
    (A : ι → List (Call Op Res) → Op → Prop) (i : ι) (calls : List (Call Op Res)) :
    (recording A).after (i, []) calls = (i, calls) := by
  induction calls using List.reverseRecOn with
  | nil => rfl
  | append_singleton calls c ih => rw [Monitor.after_concat, ih]

/-- Where every program serves the same, what is allowed is a matter of the calls alone. -/
@[reducible] def Monitor.remembering {Op : Type} {Res : Op → Type}
    (A : List (Call Op Res) → Op → Prop) : Monitor Op Res where
  State := List (Call Op Res)
  next history op r := history ++ [⟨op, r⟩]
  allowed := A

theorem Monitor.after_remembering {Op : Type} {Res : Op → Type}
    (A : List (Call Op Res) → Op → Prop) (history calls : List (Call Op Res)) :
    (remembering A).after history calls = history ++ calls := by
  induction calls using List.reverseRecOn with
  | nil => exact (List.append_nil history).symm
  | append_singleton calls c ih =>
    rw [Monitor.after_concat, ih]
    exact List.append_assoc history calls [c]

namespace Prog

variable {Op : Type} {Res : Op → Type} {α : Type}

/-- The calls of a program with their answers, up to some point. -/
inductive Traces : Prog Op Res α → List (Call Op Res) → Prop
  | start (p : Prog Op Res α) : Traces p []
  | call {op : Op} {k : Res op → Prog Op Res α} {calls : List (Call Op Res)} (r : Res op) :
    Traces (k r) calls → Traces (.call op k) (⟨op, r⟩ :: calls)

/-- A program that comes to a call traces it. -/
theorem Traces.step {p : Prog Op Res α} {op : Op} {k : Res op → Prog Op Res α} {r : Res op}
    {calls : List (Call Op Res)} (hp : p = .call op k) (h : Traces (k r) calls) :
    Traces p (⟨op, r⟩ :: calls) := by
  rw [hp]
  exact .call r h

/-- Every call of a program was allowed when it was made. -/
theorem Traces.allowed {M : Monitor Op Res} {post : M.State → α → Prop} {p : Prog Op Res α}
    {calls : List (Call Op Res)} (h : Traces p calls) {g : M.State} (hobeys : M.Obeys post p g)
    {pre suf : List (Call Op Res)} {c : Call Op Res} (hsplit : calls = pre ++ c :: suf) :
    M.allowed (M.after g pre) c.1 := by
  induction h generalizing g pre with
  | start p => simp at hsplit
  | call r _ ih =>
    cases pre with
    | nil =>
      obtain ⟨rfl, -⟩ := List.cons.inj hsplit
      exact hobeys.1
    | cons c' pre =>
      obtain ⟨rfl, hrest⟩ := List.cons.inj hsplit
      exact ih (hobeys.2 r) hrest

/-- The calls of a program that has come to its end, and its answer. -/
inductive Completes : Prog Op Res α → List (Call Op Res) → α → Prop
  | pure (a : α) : Completes (.pure a) [] a
  | call {op : Op} {k : Res op → Prog Op Res α} {calls : List (Call Op Res)} {a : α} (r : Res op) :
    Completes (k r) calls a → Completes (.call op k) (⟨op, r⟩ :: calls) a

/-- A program that has ended made no call. -/
theorem Completes.of_pure {a b : α} {calls : List (Call Op Res)}
    (h : Completes (.pure a) calls b) : calls = [] ∧ b = a := by
  cases h
  exact ⟨rfl, rfl⟩

/-- What a program with a call to make comes to is what it comes to behind it. -/
theorem Completes.of_call {op : Op} {k : Res op → Prog Op Res α} {calls : List (Call Op Res)}
    {a : α} (h : Completes (.call op k) calls a) :
    ∃ r rest, calls = ⟨op, r⟩ :: rest ∧ Completes (k r) rest a := by
  cases h with
  | call r h => exact ⟨r, _, rfl, h⟩

theorem Completes.traces {p : Prog Op Res α} {calls : List (Call Op Res)} {a : α}
    (h : Completes p calls a) : Traces p calls := by
  induction h with
  | pure a => exact .start _
  | call r _ ih => exact .call r ih

/-- What a program comes to is as its specification asks. -/
theorem Completes.post {M : Monitor Op Res} {post : M.State → α → Prop} {p : Prog Op Res α}
    {calls : List (Call Op Res)} {a : α} (h : Completes p calls a) {g : M.State}
    (hobeys : M.Obeys post p g) : post (M.after g calls) a := by
  induction h generalizing g with
  | pure a => exact hobeys
  | call r _ ih => exact ih (hobeys.2 r)

end Prog

/-! ### A program on its own -/

namespace Prog

variable {Op : Type} {Res : Op → Type} {World Choice α β : Type}
  (serve : World → Choice → (op : Op) → Res op × World)

/-- The program can end with the answer `a` and leave the world `w'`, for some choice of the
outside at each of its calls. -/
inductive Exec : Prog Op Res α → World → α → World → Prop
  | pure (a : α) (w : World) : Exec (.pure a) w a w
  | call {op : Op} {k : Res op → Prog Op Res α} {w w' : World} {a : α} (choice : Choice) :
    Exec (k (serve w choice op).1) (serve w choice op).2 a w' → Exec (.call op k) w a w'

variable {serve}

/-- A program that has ended did so where it stands. -/
theorem Exec.of_pure {a b : α} {w w' : World} (h : Exec serve (.pure a) w b w') :
    b = a ∧ w' = w := by
  cases h with
  | pure => exact ⟨rfl, rfl⟩

/-- A program that makes a call goes on with its answer. -/
theorem Exec.of_perform_bind {op : Op} {f : Res op → Prog Op Res α} {w w' : World} {a : α}
    (h : Exec serve (perform op >>= f) w a w') : ∃ choice,
      Exec serve (f (serve w choice op).1) (serve w choice op).2 a w' := by
  cases h with
  | call choice hrest => exact ⟨choice, hrest⟩

end Prog

/-- A shared world answering the programs of the requests that arrive. -/
structure System (Op : Type) (Res : Op → Type) where
  World : Type
  Request : Type
  /-- What the outside decides at a call. -/
  Choice : Type
  initial : World
  program : Request → Prog Op Res Unit
  answer : World → Choice → (op : Op) → Res op × World

namespace System

variable {Op : Type} {Res : Op → Type} (S : System Op Res)

/-- A request being served: what is left of its program, and the calls it made. -/
structure Process where
  request : S.Request
  program : Prog Op Res Unit
  history : List (Call Op Res)

/-- The world and every request so far, served or being served. -/
structure Config where
  world : S.World
  procs : List S.Process

/-- What can happen next. -/
inductive Event
  | arrive (request : S.Request)
  | act (pid : ℕ) (choice : S.Choice)

variable {S}

/-- A request arrives. -/
def Config.arrive (c : S.Config) (request : S.Request) : S.Config where
  world := c.world
  procs := c.procs ++ [⟨request, S.program request, []⟩]

/-- The process `pid` calls `op`, with `k` to follow. -/
def Config.call (c : S.Config) (pid : ℕ) (choice : S.Choice) (p : S.Process) (op : Op)
    (k : Res op → Prog Op Res Unit) : S.Config :=
  let answer := S.answer c.world choice op
  { world := answer.2
    procs := c.procs.set pid ⟨p.request, k answer.1, p.history ++ [⟨op, answer.1⟩]⟩ }

/-- One event; acting on behalf of a finished or unknown process does nothing. -/
def step (c : S.Config) : S.Event → S.Config
  | .arrive request => c.arrive request
  | .act pid choice =>
    match c.procs[pid]? with
    | none => c
    | some p =>
      match p.program with
      | .pure _ => c
      | .call op k => c.call pid choice p op k

variable (S)

/-- The configuration after a sequence of events. -/
def run (events : List S.Event) : S.Config := events.foldl step ⟨S.initial, []⟩

variable {S}

theorem run_concat (events : List S.Event) (e : S.Event) :
    S.run (events ++ [e]) = step (S.run events) e := by
  simp [run]

/-- The requests that arrive in a sequence of events. -/
def arrivals (events : List S.Event) : List S.Request :=
  events.filterMap fun
    | .arrive request => some request
    | .act _ _ => none

/-- Every process goes on serving the request it started with. -/
theorem requests_run (events : List S.Event) :
    (S.run events).procs.map Process.request = arrivals events := by
  induction events using List.reverseRecOn with
  | nil => rfl
  | append_singleton events e ih =>
    rw [run_concat, arrivals, List.filterMap_append, ← arrivals, ← ih]
    cases e with
    | arrive request => simp [step, Config.arrive]
    | act pid choice =>
      simp only [List.filterMap_cons, List.filterMap_nil, List.append_nil, step]
      split
      · rfl
      · rename_i p hp
        split
        · rfl
        · -- the process that acted keeps its request
          obtain ⟨hlt, rfl⟩ := List.getElem?_eq_some_iff.mp hp
          refine List.ext_getElem (by simp [Config.call]) fun i h₁ h₂ => ?_
          simp only [Config.call, List.getElem_map, List.getElem_set]
          split_ifs with hi
          · subst hi
            rfl
          · rfl

theorem getElem?_arrive {c : S.Config} {request : S.Request} {i : ℕ} {p : S.Process}
    (h : (c.arrive request).procs[i]? = some p) :
    c.procs[i]? = some p ∨ (i = c.procs.length ∧ p = ⟨request, S.program request, []⟩) := by
  rcases Nat.lt_trichotomy i c.procs.length with hlt | heq | hgt
  · exact .inl (by rwa [Config.arrive, List.getElem?_append_left hlt] at h)
  · subst heq
    refine .inr ⟨rfl, ?_⟩
    simpa [Config.arrive] using h.symm
  · rw [Config.arrive, List.getElem?_eq_none (by simp; omega)] at h
    cases h

theorem getElem?_call_self {c : S.Config} {pid : ℕ} {choice : S.Choice} {p : S.Process} {op : Op}
    {k : Res op → Prog Op Res Unit} (hp : c.procs[pid]? = some p) :
    (c.call pid choice p op k).procs[pid]? =
      some ⟨p.request, k (S.answer c.world choice op).1,
        p.history ++ [⟨op, (S.answer c.world choice op).1⟩]⟩ := by
  have hlt : pid < c.procs.length := (List.getElem?_eq_some_iff.mp hp).1
  simp [Config.call, hlt]

theorem getElem?_call_of_ne {c : S.Config} {pid i : ℕ} {choice : S.Choice} {p : S.Process} {op : Op}
    {k : Res op → Prog Op Res Unit} (hi : i ≠ pid) :
    (c.call pid choice p op k).procs[i]? = c.procs[i]? := by
  simp [Config.call, Ne.symm hi]

theorem getElem?_arrive_of_some {c : S.Config} {request : S.Request} {i : ℕ} {p : S.Process}
    (hp : c.procs[i]? = some p) : (c.arrive request).procs[i]? = some p := by
  have hlt : i < c.procs.length := (List.getElem?_eq_some_iff.mp hp).1
  rwa [Config.arrive, List.getElem?_append_left hlt]

/-- A process keeps its request and only adds to its history. -/
theorem exists_grown_call {c : S.Config} {pid : ℕ} {choice : S.Choice} {q : S.Process} {op : Op}
    {k : Res op → Prog Op Res Unit} (hq : c.procs[pid]? = some q) {i : ℕ} {p : S.Process}
    (hp : c.procs[i]? = some p) :
    ∃ p', (c.call pid choice q op k).procs[i]? = some p' ∧ p'.request = p.request ∧
      ∀ call ∈ p.history, call ∈ p'.history := by
  by_cases hi : i = pid
  · subst hi
    obtain rfl := Option.some.inj (hp.symm.trans hq)
    exact ⟨_, getElem?_call_self hq, rfl, fun call h => List.mem_append_left _ h⟩
  · exact ⟨p, by rw [getElem?_call_of_ne hi, hp], rfl, fun call h => h⟩

/-- Every event of a sequence happens in a configuration that `R` accepts for it. -/
def Along (R : S.Config → S.Event → Prop) (events : List S.Event) : Prop :=
  ∀ pre e post, events = pre ++ e :: post → R (S.run pre) e

theorem Along.concat {R : S.Config → S.Event → Prop} {events : List S.Event} {e : S.Event}
    (h : Along R (events ++ [e])) : Along R events ∧ R (S.run events) e :=
  ⟨fun pre e' post heq => h pre e' (post ++ [e]) (by rw [heq]; simp), h events e [] rfl⟩

/-- Test every event of a sequence in the configuration it happens in. -/
def checkAlong (test : S.Config → S.Event → Bool) : S.Config → List S.Event → Bool
  | _, [] => true
  | c, e :: events => test c e && checkAlong test (step c e) events

/-- A test that succeeds along a sequence of events is an assumption the run keeps to. -/
theorem along_of_check {R : S.Config → S.Event → Prop} {test : S.Config → S.Event → Bool}
    (htest : ∀ c e, test c e = true → R c e) {events : List S.Event}
    (h : checkAlong test ⟨S.initial, []⟩ events = true) : Along R events := by
  have hfrom (events : List S.Event) (c : S.Config) (h : checkAlong test c events = true)
      (pre : List S.Event) (e : S.Event) (post : List S.Event) (heq : events = pre ++ e :: post) :
      R (pre.foldl step c) e := by
    induction pre generalizing events c with
    | nil =>
      subst heq
      rw [List.nil_append, checkAlong, Bool.and_eq_true] at h
      exact htest c e h.1
    | cons e' pre ih =>
      subst heq
      rw [List.cons_append, checkAlong, Bool.and_eq_true] at h
      exact ih _ (step c e') h.2 rfl
  exact fun pre e post heq => hfrom events _ h pre e post heq

section Monitored

variable (M : Monitor Op Res) (start : S.Request → M.State) {post : M.State → Unit → Prop}

/-- What is left of every process obeys the monitor. -/
def Monitored (post : M.State → Unit → Prop) (c : S.Config) : Prop :=
  ∀ (i : ℕ) (p : S.Process), c.procs[i]? = some p →
    M.Obeys post p.program (M.after (start p.request) p.history)

/-- **Programs stay within their monitor**, whatever the interleaving. -/
theorem obeys_run (hprogram : ∀ req, M.Obeys post (S.program req) (start req))
    (events : List S.Event) : Monitored M start post (S.run events) := by
  induction events using List.reverseRecOn with
  | nil => intro i p hp; simp [run] at hp
  | append_singleton events e ih =>
    rw [run_concat]
    intro i p hp
    cases e with
    | arrive request =>
      rcases getElem?_arrive hp with hold | ⟨-, rfl⟩
      · exact ih i p hold
      · exact hprogram request
    | act pid choice =>
      simp only [step] at hp
      split at hp
      · exact ih i p hp
      · rename_i q hq
        split at hp
        · exact ih i p hp
        · rename_i op k hprog
          by_cases hi : i = pid
          · subst hi
            rw [getElem?_call_self hq] at hp
            obtain rfl := Option.some.inj hp
            have hobeys := ih i q hq
            rw [hprog] at hobeys
            rw [M.after_concat]
            exact hobeys.2 _
          · rw [getElem?_call_of_ne hi] at hp
            exact ih i p hp

/-- Every call a process has made was allowed when it was made. -/
theorem history_allowed (hprogram : ∀ req, M.Obeys post (S.program req) (start req))
    (events : List S.Event) {i : ℕ} {p : S.Process} (hp : (S.run events).procs[i]? = some p)
    {pre suf : List (Call Op Res)} {c : Call Op Res} (hsplit : p.history = pre ++ c :: suf) :
    M.allowed (M.after (start p.request) pre) c.1 := by
  induction events using List.reverseRecOn generalizing p pre suf c with
  | nil => simp [run] at hp
  | append_singleton events e ih =>
    rw [run_concat] at hp
    cases e with
    | arrive request =>
      rcases getElem?_arrive hp with hold | ⟨-, rfl⟩
      · exact ih hold hsplit
      · simp at hsplit
    | act pid choice =>
      simp only [step] at hp
      split at hp
      · exact ih hp hsplit
      · rename_i q hq
        split at hp
        · exact ih hp hsplit
        · rename_i op k hprog
          by_cases hi : i = pid
          · subst hi
            rw [getElem?_call_self hq] at hp
            obtain rfl := Option.some.inj hp
            -- the call is an old one or the one just made
            rcases List.eq_nil_or_concat suf with rfl | ⟨suf', c', rfl⟩
            · obtain ⟨rfl, hc⟩ := List.append_inj' hsplit rfl
              obtain rfl := List.singleton_inj.mp hc
              have hobeys := obeys_run M start hprogram events i q hq
              rw [hprog] at hobeys
              exact hobeys.1
            · rw [List.concat_eq_append, ← List.cons_append, ← List.append_assoc] at hsplit
              exact ih hq (List.append_inj' hsplit rfl).1
          · rw [getElem?_call_of_ne hi] at hp
            exact ih hp hsplit

/-- **The invariant rule.** A property of configurations that holds at the start and survives
arrivals and the calls its monitor allows holds in every run; `R` is what the run is assumed
to keep to. -/
theorem run_induction (hprogram : ∀ req, M.Obeys post (S.program req) (start req))
    {R : S.Config → S.Event → Prop} {P : S.Config → Prop} (hinit : P ⟨S.initial, []⟩)
    (harrive : ∀ c req, P c → P (c.arrive req))
    (hcall : ∀ (c : S.Config) pid choice p op k, P c → R c (.act pid choice) →
      c.procs[pid]? = some p → p.program = .call op k →
      M.allowed (M.after (start p.request) p.history) op → P (c.call pid choice p op k))
    (events : List S.Event) (halong : Along R events) : P (S.run events) := by
  induction events using List.reverseRecOn with
  | nil => exact hinit
  | append_singleton events e ih =>
    obtain ⟨hearlier, hlast⟩ := halong.concat
    have hmon := obeys_run M start hprogram events
    rw [run_concat]
    cases e with
    | arrive request => exact harrive _ request (ih hearlier)
    | act pid choice =>
      simp only [step]
      split
      · exact ih hearlier
      · rename_i p hp
        split
        · exact ih hearlier
        · rename_i op k hprog
          have hobeys := hmon pid p hp
          rw [hprog] at hobeys
          exact hcall _ pid choice p op k (ih hearlier) hlast hp hprog hobeys.1

end Monitored

end System
