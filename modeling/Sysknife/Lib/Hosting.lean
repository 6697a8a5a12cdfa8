import Sysknife.Lib.Prog

/-!
# Programs that host other programs

A **host** is a program that, between calls of its own, runs the programs of a system to their end,
one after the other: a connection that serves the requests it reads. The calls of its own look at
the world and leave it as it is (`Hosting.ask`); which request it begins to serve follows from its
calls so far (`Hosting.Begins`).

* `Hosting.Serves`: what is left of a host, and of the program it is running, fit together;
  `serves_quiet_bind` and `serves_hosted_bind` are its rules for sequential composition.
* `Hosting.exists_run`: **hosts beside each other do what the system does.** For every run of hosts
  there is a run of the system in the same world: every process of the system is one that a host
  began and has run since, and every call a host makes for a program is a call of such a process.
-/

/-- A call of a host: one of its own, or one for the program it is running. -/
inductive HostCall (Own Op : Type) : Type
  | own (o : Own)
  | hosted (op : Op)

/-- What a call of a host is answered with. -/
abbrev HostCall.Answer {Own Op : Type} (OwnRes : Own → Type) (Res : Op → Type) :
    HostCall Own Op → Type
  | .own o => OwnRes o
  | .hosted op => Res op

/-- The program of a host. -/
abbrev HostProg {Own Op : Type} (OwnRes : Own → Type) (Res : Op → Type) (α : Type) : Type :=
  Prog (HostCall Own Op) (HostCall.Answer OwnRes Res) α

/-- The calls of a host. -/
abbrev HostHistory {Own Op : Type} (OwnRes : Own → Type) (Res : Op → Type) : Type :=
  List (Call (HostCall Own Op) (HostCall.Answer OwnRes Res))

namespace Prog

variable {Own Op : Type} {OwnRes : Own → Type} {Res : Op → Type} {α : Type}

/-- Run a program on behalf of a host. -/
def hosted : Prog Op Res α → HostProg OwnRes Res α
  | .pure a => .pure a
  | .call op k => .call (.hosted op) fun r => (k r).hosted

/-- A call of the host's own. -/
def own (o : Own) : HostProg OwnRes Res (OwnRes o) := .call (.own o) .pure

theorem Only.mono {Op : Type} {Res : Op → Type} {Q Q' : Op → Prop} {p : Prog Op Res α}
    (hp : p.Only Q) (h : ∀ op, Q op → Q' op) : p.Only Q' := by
  induction p with
  | pure a => trivial
  | call op k ih => exact ⟨h op hp.1, fun r => ih r (hp.2 r)⟩

/-- A program that has traced some calls had traced the first of them before. -/
theorem Traces.of_append {Op : Type} {Res : Op → Type} {p : Prog Op Res α}
    {calls rest : List (Call Op Res)} (h : p.Traces (calls ++ rest)) : p.Traces calls := by
  induction calls generalizing p with
  | nil => exact .start p
  | cons call calls ih =>
    cases h with
    | call r hrest => exact .call r (ih hrest)

/-- The program makes calls of its host's own only, whatever the answers. -/
def Quiet (p : HostProg OwnRes Res α) : Prop := p.Only fun op => ∃ o, op = .own o

theorem only_hosted (p : Prog Op Res α) :
    (p.hosted : HostProg OwnRes Res α).Only fun op => ∃ o, op = .hosted o := by
  induction p with
  | pure a => trivial
  | call op k ih => exact ⟨⟨op, rfl⟩, ih⟩

/-- Calls that may be made at any time are remembered as they are made. -/
theorem Only.obeys_recording {ι : Type} {A : ι → List (Call Op Res) → Op → Prop} {i : ι}
    {Q : Op → Prop} {p : Prog Op Res α} (hp : p.Only Q) (history : List (Call Op Res))
    (hallowed : ∀ calls op, Q op → A i (history ++ calls) op) :
    (Monitor.recording A).Obeys (fun g a => ∃ calls, g = (i, history ++ calls) ∧
      p.Completes calls a) p (i, history) := by
  induction p generalizing history with
  | pure a => exact ⟨[], by rw [List.append_nil], .pure a⟩
  | call op k ih =>
    refine ⟨?_, fun r => Monitor.Obeys.mono (ih r (hp.2 r) (history ++ [⟨op, r⟩]) ?_) ?_⟩
    · have hfirst := hallowed [] op hp.1
      rw [List.append_nil] at hfirst
      exact hfirst
    · intro calls op' hop'
      rw [List.append_assoc]
      exact hallowed _ op' hop'
    · rintro g a ⟨calls, rfl, hcalls⟩
      exact ⟨⟨op, r⟩ :: calls, by rw [List.append_assoc]; rfl, .call r hcalls⟩

/-- The same, with something to follow. -/
theorem Only.obeys_recording_bind {ι β : Type} {A : ι → List (Call Op Res) → Op → Prop} {i : ι}
    {Q : Op → Prop} {post : ι × List (Call Op Res) → β → Prop} {p : Prog Op Res α}
    {f : α → Prog Op Res β} (hp : p.Only Q) (history : List (Call Op Res))
    (hallowed : ∀ calls op, Q op → A i (history ++ calls) op)
    (hf : ∀ calls a, p.Completes calls a →
      (Monitor.recording A).Obeys post (f a) (i, history ++ calls)) :
    (Monitor.recording A).Obeys post (p >>= f) (i, history) := by
  refine Monitor.obeys_bind ((hp.obeys_recording history hallowed).mono ?_)
  rintro g a ⟨calls, rfl, hcalls⟩
  exact hf calls a hcalls

end Prog

/-- An element of a list that has grown by one is an earlier one or the last. -/
theorem List.split_of_concat {α : Type} {l before after : List α} {last a : α}
    (h : l ++ [last] = before ++ a :: after) :
    (∃ after', l = before ++ a :: after') ∨ (before = l ∧ a = last) := by
  rcases List.eq_nil_or_concat after with rfl | ⟨after', last', rfl⟩
  · obtain ⟨rfl, hlast⟩ := List.append_inj' h rfl
    exact .inr ⟨rfl, (List.singleton_inj.mp hlast).symm⟩
  · rw [List.concat_eq_append, ← List.cons_append, ← List.append_assoc] at h
    exact .inl ⟨after', (List.append_inj' h rfl).1⟩

namespace System

variable {Op : Type} {Res : Op → Type} {S : System Op Res}

theorem along_concat {R : S.Config → S.Event → Prop} {events : List S.Event} {e : S.Event}
    (h : Along R events) (hlast : R (S.run events) e) : Along R (events ++ [e]) := by
  intro pre e' post heq
  rcases List.split_of_concat heq with ⟨post', hevents⟩ | ⟨rfl, rfl⟩
  · exact h pre e' post' hevents
  · exact hlast

/-- What a process has done and can do is what its program does. -/
theorem traces_run (events : List S.Event) {i : ℕ} {p : S.Process}
    (hp : (S.run events).procs[i]? = some p) (rest : List (Call Op Res))
    (hrest : p.program.Traces rest) : (S.program p.request).Traces (p.history ++ rest) := by
  induction events using List.reverseRecOn generalizing i p rest with
  | nil => simp [run] at hp
  | append_singleton events e ih =>
    rw [run_concat] at hp
    cases e with
    | arrive request =>
      rcases getElem?_arrive hp with hold | ⟨-, rfl⟩
      · exact ih hold rest hrest
      · exact hrest
    | act pid choice =>
      simp only [step] at hp
      split at hp
      · exact ih hp rest hrest
      rename_i q hq
      split at hp
      · exact ih hp rest hrest
      rename_i op k hprog
      by_cases hi : i = pid
      · subst hi
        rw [getElem?_call_self hq] at hp
        obtain rfl := Option.some.inj hp
        rw [List.append_assoc]
        exact ih hq _ (.step hprog hrest)
      · rw [getElem?_call_of_ne hi] at hp
        exact ih hp rest hrest

/-- A call adds to the history of the process that makes it, and to no other. -/
theorem exists_longer_call {c : S.Config} {pid : ℕ} {choice : S.Choice} {q : S.Process} {op : Op}
    {k : Res op → Prog Op Res Unit} (hq : c.procs[pid]? = some q) {i : ℕ} {p : S.Process}
    (hp : c.procs[i]? = some p) :
    ∃ p', (c.call pid choice q op k).procs[i]? = some p' ∧ p'.request = p.request ∧
      ∃ calls, p'.history = p.history ++ calls := by
  by_cases hi : i = pid
  · subst hi
    obtain rfl := Option.some.inj (hp.symm.trans hq)
    exact ⟨_, getElem?_call_self hq, rfl, _, rfl⟩
  · exact ⟨p, by rw [getElem?_call_of_ne hi, hp], rfl, [], (List.append_nil _).symm⟩

end System

/-- Hosts over a system. -/
structure Hosting {Op : Type} {Res : Op → Type} (S : System Op Res) (Own : Type)
    (OwnRes : Own → Type) where
  Host : Type
  Choice : Type
  choose : Choice → S.Choice
  program : Host → HostProg OwnRes Res Unit
  /-- The answer to a call of a host's own. -/
  ask : S.World → Choice → (o : Own) → OwnRes o
  /-- After these calls, a host begins to serve a request. -/
  Begins : Host → HostHistory OwnRes Res → S.Request → Prop

namespace Hosting

variable {Op : Type} {Res : Op → Type} {S : System Op Res} {Own : Type} {OwnRes : Own → Type}
  (H : Hosting S Own OwnRes)

/-- What is left of a host after some calls, and what is left of the program it is running. -/
def Serves (host : H.Host) :
    HostProg OwnRes Res Unit → HostHistory OwnRes Res → Prog Op Res Unit → Prop
  | .pure _, _, guest => guest = .pure ()
  | .call (.own o) k, history, guest => guest = .pure () ∧ ∀ r,
      Serves host (k r) (history ++ [⟨.own o, r⟩]) (.pure ()) ∨
      ∃ request, H.Begins host (history ++ [⟨.own o, r⟩]) request ∧
        Serves host (k r) (history ++ [⟨.own o, r⟩]) (S.program request)
  | .call (.hosted op) k, history, guest => ∃ k', guest = .call op k' ∧
      ∀ r, Serves host (k r) (history ++ [⟨.hosted op, r⟩]) (k' r)

/-- The hosts as a system. -/
@[reducible] def system : System (HostCall Own Op) (HostCall.Answer OwnRes Res) where
  World := S.World
  Request := H.Host
  Choice := H.Choice
  initial := S.initial
  program := H.program
  answer w choice
    | .own o => (H.ask w choice o, w)
    | .hosted op => S.answer w (H.choose choice) op

/-- The calls of a program, as calls of its host. -/
def hostedCalls (calls : List (Call Op Res)) : HostHistory OwnRes Res :=
  calls.map fun call => ⟨.hosted call.1, call.2⟩

/-- The host began the process of the system after the calls `before`, and then made its calls. -/
structure Ran (p : H.system.Process) (q : S.Process) (before after : HostHistory OwnRes Res) :
    Prop where
  history : p.history = before ++ hostedCalls q.history ++ after
  begins : H.Begins p.request before q.request

/-- A process of the system is one that the host began, and has run since. -/
def IsGuest (p : H.system.Process) (q : S.Process) : Prop := ∃ before after, H.Ran p q before after

/-- The call of the system is one of its process `q`, which the host began after some of the calls
`before`, having made no other calls since. -/
def Makes (p : H.system.Process) (q : S.Process) (before : HostHistory OwnRes Res)
    (call : Call Op Res) : Prop :=
  ∃ begun calls rest, before = begun ++ hostedCalls calls ∧ H.Begins p.request begun q.request ∧
    q.history = calls ++ call :: rest

/-- A run of hosts and a run of the system: `guest` names the process of what a host serves. -/
structure Simulates (c : H.system.Config) (a : S.Config) (guest : ℕ → Option ℕ) : Prop where
  world : a.world = c.world
  serves (i : ℕ) (p : H.system.Process) (hp : c.procs[i]? = some p) :
    (guest i = none ∧ H.Serves p.request p.program p.history (.pure ())) ∨
    ∃ j q before after, guest i = some j ∧ a.procs[j]? = some q ∧ H.Ran p q before after ∧
      (after = [] ∨ q.program = .pure ()) ∧ H.Serves p.request p.program p.history q.program
  injective (i i' j : ℕ) (hi : guest i = some j) (hi' : guest i' = some j) : i = i'
  exists_host (i j : ℕ) (hi : guest i = some j) : i < c.procs.length
  exists_guest (i j : ℕ) (hi : guest i = some j) : j < a.procs.length
  /-- Every process of the system is some host's. -/
  exists_isGuest (j : ℕ) (q : S.Process) (hq : a.procs[j]? = some q) :
    ∃ (i : ℕ) (p : H.system.Process), c.procs[i]? = some p ∧ H.IsGuest p q
  /-- Every call a host makes for a program is one of a process of the system. -/
  exists_makes (i : ℕ) (p : H.system.Process) (hp : c.procs[i]? = some p)
    (before after : HostHistory OwnRes Res) (op : Op) (r : Res op)
    (hsplit : p.history = before ++ ⟨.hosted op, r⟩ :: after) :
    ∃ (j : ℕ) (q : S.Process), a.procs[j]? = some q ∧ H.Makes p q before ⟨op, r⟩

variable {H}

theorem hostedCalls_concat (calls : List (Call Op Res)) (call : Call Op Res) :
    (hostedCalls (calls ++ [call]) : HostHistory OwnRes Res) =
      hostedCalls calls ++ [⟨.hosted call.1, call.2⟩] := by
  rw [hostedCalls, List.map_append]
  rfl

theorem IsGuest.mono {p p' : H.system.Process} {q : S.Process} (h : H.IsGuest p q)
    (hrequest : p'.request = p.request)
    (hhistory : ∃ calls, p'.history = p.history ++ calls) : H.IsGuest p' q := by
  obtain ⟨before, after, hran⟩ := h
  obtain ⟨calls, hcalls⟩ := hhistory
  refine ⟨before, after ++ calls, ?_, by rw [hrequest]; exact hran.begins⟩
  rw [hcalls, hran.history, List.append_assoc]

theorem ran_new {host : H.Host} {program : HostProg OwnRes Res Unit}
    {history : HostHistory OwnRes Res} {request : S.Request}
    (hbegins : H.Begins host history request) :
    H.Ran ⟨host, program, history⟩ ⟨request, S.program request, []⟩ history [] :=
  ⟨by rw [hostedCalls, List.map_nil, List.append_nil, List.append_nil], hbegins⟩

theorem Makes.mono {p : H.system.Process} {q q' : S.Process} {before : HostHistory OwnRes Res}
    {call : Call Op Res} (h : H.Makes p q before call) (hrequest : q'.request = q.request)
    (hhistory : ∃ calls, q'.history = q.history ++ calls) : H.Makes p q' before call := by
  obtain ⟨begun, calls, rest, hbefore, hbegins, hcalls⟩ := h
  obtain ⟨more, hmore⟩ := hhistory
  refine ⟨begun, calls, rest ++ more, hbefore, by rw [hrequest]; exact hbegins, ?_⟩
  rw [hmore, hcalls, List.append_assoc, List.cons_append]

/-- A program that makes calls of its host's own only, with what comes after it. -/
theorem serves_quiet_bind {α : Type} {host : H.Host} {p : HostProg OwnRes Res α}
    {f : α → HostProg OwnRes Res Unit} (hp : p.Quiet) (history : HostHistory OwnRes Res)
    (hf : ∀ calls a, p.Completes calls a → H.Serves host (f a) (history ++ calls) (.pure ())) :
    H.Serves host (p >>= f) history (.pure ()) := by
  induction p generalizing history with
  | pure a =>
    have hdone := hf [] a (.pure a)
    rw [List.append_nil] at hdone
    exact hdone
  | call op k ih =>
    obtain ⟨⟨o, rfl⟩, hk⟩ := hp
    refine ⟨rfl, fun r => .inl (ih r (hk r) _ fun calls a hcalls => ?_)⟩
    rw [List.append_assoc]
    exact hf _ a (.call r hcalls)

/-- The program of a request, with what comes after it. -/
theorem serves_hosted_bind {host : H.Host} {f : Unit → HostProg OwnRes Res Unit}
    (p : Prog Op Res Unit) (history : HostHistory OwnRes Res)
    (hf : ∀ calls, H.Serves host (f ()) (history ++ calls) (.pure ())) :
    H.Serves host (p.hosted >>= f) history p := by
  induction p generalizing history with
  | pure a =>
    have hdone := hf []
    rw [List.append_nil] at hdone
    exact hdone
  | call op k ih =>
    refine ⟨k, rfl, fun r => ih r _ fun calls => ?_⟩
    rw [List.append_assoc]
    exact hf _

theorem simulates_initial : H.Simulates ⟨S.initial, []⟩ ⟨S.initial, []⟩ fun _ => none where
  world := rfl
  serves i p hp := by simp at hp
  injective i i' j hi := by cases hi
  exists_host i j hi := by cases hi
  exists_guest i j hi := by cases hi
  exists_isGuest j q hq := by simp at hq
  exists_makes i p hp := by simp at hp

section Steps

variable {c : H.system.Config} {a : S.Config} {guest : ℕ → Option ℕ}

/-- A host arrives. -/
theorem Simulates.arrive (h : H.Simulates c a guest) (host : H.Host)
    (hserves : H.Serves host (H.program host) [] (.pure ())) :
    H.Simulates (c.arrive host) a guest where
  world := h.world
  serves i p hp := by
    rcases System.getElem?_arrive hp with hold | ⟨rfl, rfl⟩
    · exact h.serves i p hold
    · refine .inl ⟨?_, hserves⟩
      by_contra hne
      obtain ⟨j, hj⟩ := Option.ne_none_iff_exists'.mp hne
      exact Nat.lt_irrefl _ (h.exists_host _ j hj)
  injective := h.injective
  exists_host i j hi := by
    have hlt := h.exists_host i j hi
    simp only [System.Config.arrive, List.length_append, List.length_singleton]
    omega
  exists_guest := h.exists_guest
  exists_isGuest j q hq := by
    obtain ⟨i, p, hp, hguest⟩ := h.exists_isGuest j q hq
    exact ⟨i, p, System.getElem?_arrive_of_some hp, hguest⟩
  exists_makes i p hp before after op r hsplit := by
    rcases System.getElem?_arrive hp with hold | ⟨rfl, rfl⟩
    · exact h.exists_makes i p hold before after op r hsplit
    · simp at hsplit

variable {pid : ℕ} {choice : H.Choice} {p : H.system.Process}

/-- What a host began, it began still after its next call. -/
theorem Simulates.exists_isGuest_call (h : H.Simulates c a guest) {op : HostCall Own Op}
    {k : HostCall.Answer OwnRes Res op → HostProg OwnRes Res Unit} (hp : c.procs[pid]? = some p)
    {j : ℕ} {q : S.Process} (hq : a.procs[j]? = some q) :
    ∃ (i : ℕ) (p₁ : H.system.Process), (c.call pid choice p op k).procs[i]? = some p₁ ∧
      H.IsGuest p₁ q := by
  obtain ⟨i, p₀, hp₀, hguest⟩ := h.exists_isGuest j q hq
  obtain ⟨p₁, hp₁, hrequest, hhistory⟩ := System.exists_longer_call hp hp₀
  exact ⟨i, p₁, hp₁, hguest.mono hrequest hhistory⟩

/-- A call of its own is no call for a program. -/
theorem Simulates.exists_makes_own (h : H.Simulates c a guest) {o : Own}
    {k : OwnRes o → HostProg OwnRes Res Unit} (hp : c.procs[pid]? = some p) {i : ℕ}
    {p₁ : H.system.Process} (hp₁ : (c.call pid choice p (.own o) k).procs[i]? = some p₁)
    {before after : HostHistory OwnRes Res} {op : Op} {r : Res op}
    (hsplit : p₁.history = before ++ ⟨.hosted op, r⟩ :: after) :
    ∃ (j : ℕ) (q : S.Process), a.procs[j]? = some q ∧ H.Makes p₁ q before ⟨op, r⟩ := by
  by_cases hi : i = pid
  · subst hi
    rw [System.getElem?_call_self hp] at hp₁
    obtain rfl := Option.some.inj hp₁
    rcases List.split_of_concat hsplit with ⟨after', hold⟩ | ⟨-, hlast⟩
    · exact h.exists_makes i p hp before after' op r hold
    · cases (Sigma.mk.inj hlast).1
  · rw [System.getElem?_call_of_ne hi] at hp₁
    exact h.exists_makes i p₁ hp₁ before after op r hsplit

/-- A host makes a call of its own, and begins nothing. -/
theorem Simulates.own (h : H.Simulates c a guest) {o : Own}
    {k : OwnRes o → HostProg OwnRes Res Unit} (hp : c.procs[pid]? = some p)
    (hprogram : p.program = .call (.own o) k)
    (hserves : H.Serves p.request (k (H.ask c.world choice o))
      (p.history ++ [⟨.own o, H.ask c.world choice o⟩]) (.pure ())) :
    H.Simulates (c.call pid choice p (.own o) k) a guest where
  world := h.world
  serves i p₁ hp₁ := by
    by_cases hi : i = pid
    · subst hi
      rw [System.getElem?_call_self hp] at hp₁
      obtain rfl := Option.some.inj hp₁
      rcases h.serves i p hp with ⟨hnone, -⟩ | ⟨j, q, before, after, hguest, hq, hran, -, hold⟩
      · exact .inl ⟨hnone, hserves⟩
      · rw [hprogram] at hold
        have hran' : H.Ran ⟨p.request, k (H.ask c.world choice o),
            p.history ++ [⟨.own o, H.ask c.world choice o⟩]⟩ q before
            (after ++ [⟨.own o, H.ask c.world choice o⟩]) :=
          ⟨by rw [hran.history, List.append_assoc], hran.begins⟩
        refine .inr ⟨j, q, before, _, hguest, hq, hran', .inr hold.1, ?_⟩
        rw [hold.1]
        exact hserves
    · rw [System.getElem?_call_of_ne hi] at hp₁
      exact h.serves i p₁ hp₁
  injective := h.injective
  exists_host i j hi := by
    rw [System.Config.call, List.length_set]
    exact h.exists_host i j hi
  exists_guest := h.exists_guest
  exists_isGuest j q hq := h.exists_isGuest_call hp hq
  exists_makes i p₁ hp₁ before after op r hsplit := h.exists_makes_own hp hp₁ hsplit

/-- A host makes a call of its own, and begins to serve a request. -/
theorem Simulates.begin (h : H.Simulates c a guest) {o : Own}
    {k : OwnRes o → HostProg OwnRes Res Unit} (hp : c.procs[pid]? = some p) {request : S.Request}
    (hbegins : H.Begins p.request (p.history ++ [⟨.own o, H.ask c.world choice o⟩]) request)
    (hserves : H.Serves p.request (k (H.ask c.world choice o))
      (p.history ++ [⟨.own o, H.ask c.world choice o⟩]) (S.program request)) :
    H.Simulates (c.call pid choice p (.own o) k) (a.arrive request)
      (Function.update guest pid (some a.procs.length)) where
  world := h.world
  serves i p₁ hp₁ := by
    by_cases hi : i = pid
    · subst hi
      rw [System.getElem?_call_self hp] at hp₁
      obtain rfl := Option.some.inj hp₁
      exact .inr ⟨a.procs.length, _, _, [], Function.update_self .., List.getElem?_concat_length,
        ran_new hbegins, .inl rfl, hserves⟩
    · rw [System.getElem?_call_of_ne hi] at hp₁
      rw [Function.update_of_ne hi]
      rcases h.serves i p₁ hp₁ with hnone | ⟨j, q, before, after, hguest, hq, hrest⟩
      · exact .inl hnone
      · exact .inr ⟨j, q, before, after, hguest, System.getElem?_arrive_of_some hq, hrest⟩
  injective i i' j hi hi' := by
    by_cases hpid : i = pid
    · by_cases hpid' : i' = pid
      · rw [hpid, hpid']
      · rw [hpid, Function.update_self] at hi
        rw [Function.update_of_ne hpid', ← hi] at hi'
        exact absurd (h.exists_guest i' _ hi') (Nat.lt_irrefl _)
    · rw [Function.update_of_ne hpid] at hi
      by_cases hpid' : i' = pid
      · rw [hpid', Function.update_self] at hi'
        rw [← hi'] at hi
        exact absurd (h.exists_guest i _ hi) (Nat.lt_irrefl _)
      · rw [Function.update_of_ne hpid'] at hi'
        exact h.injective i i' j hi hi'
  exists_host i j hi := by
    rw [System.Config.call, List.length_set]
    by_cases hpid : i = pid
    · rw [hpid]
      exact (List.getElem?_eq_some_iff.mp hp).1
    · rw [Function.update_of_ne hpid] at hi
      exact h.exists_host i j hi
  exists_guest i j hi := by
    rw [System.Config.arrive, List.length_append, List.length_singleton]
    by_cases hpid : i = pid
    · rw [hpid, Function.update_self] at hi
      rw [← Option.some.inj hi]
      exact Nat.lt_succ_self _
    · rw [Function.update_of_ne hpid] at hi
      exact Nat.lt_succ_of_lt (h.exists_guest i j hi)
  exists_isGuest j q hq := by
    rcases System.getElem?_arrive hq with hold | ⟨rfl, rfl⟩
    · exact h.exists_isGuest_call hp hold
    · exact ⟨pid, _, System.getElem?_call_self hp, _, [], ran_new hbegins⟩
  exists_makes i p₁ hp₁ before after op r hsplit := by
    obtain ⟨j, q, hq, hmakes⟩ := h.exists_makes_own hp hp₁ hsplit
    exact ⟨j, q, System.getElem?_arrive_of_some hq, hmakes⟩

/-- The next call of a program is the next call of the host that is running it. -/
theorem Simulates.exists_next (h : H.Simulates c a guest) {j : ℕ} (hguest : guest pid = some j)
    {q : S.Process} (hq : a.procs[j]? = some q) {op : Op} {k' : Res op → Prog Op Res Unit}
    (hq' : q.program = .call op k') :
    ∃ (p : H.system.Process) (k : Res op → HostProg OwnRes Res Unit), c.procs[pid]? = some p ∧
      p.program = .call (.hosted op) k := by
  obtain ⟨p, hp⟩ : ∃ p, c.procs[pid]? = some p :=
    ⟨_, List.getElem?_eq_getElem (h.exists_host pid j hguest)⟩
  rcases h.serves pid p hp with ⟨hnone, -⟩ | ⟨j', q', before, after, hguest', hq₁, -, -, hserves⟩
  · rw [hnone] at hguest
    cases hguest
  obtain rfl := Option.some.inj (hguest'.symm.trans hguest)
  obtain rfl := Option.some.inj (hq₁.symm.trans hq)
  refine ⟨p, ?_⟩
  rw [hq'] at hserves
  generalize p.history = history at hserves
  cases hprogram : p.program with
  | pure a =>
    rw [hprogram] at hserves
    cases hserves
  | call hostOp k =>
    rw [hprogram] at hserves
    cases hostOp with
    | own o => cases hserves.1
    | hosted op' =>
      obtain ⟨k'', heq, -⟩ := hserves
      cases heq
      exact ⟨k, hp, rfl⟩

variable (choice) in
/-- A host makes a call for the program it is running. -/
theorem Simulates.hosted (h : H.Simulates c a guest) {op : Op}
    {k : Res op → HostProg OwnRes Res Unit} (hp : c.procs[pid]? = some p)
    (hprogram : p.program = .call (.hosted op) k) :
    ∃ j q k', guest pid = some j ∧ a.procs[j]? = some q ∧ q.program = .call op k' ∧
      H.Simulates (c.call pid choice p (.hosted op) k) (a.call j (H.choose choice) q op k')
        guest := by
  rcases h.serves pid p hp with ⟨-, hold⟩ | ⟨j, q, begun, rest, hguest, hq, hran, hrest, hold⟩
  · rw [hprogram] at hold
    obtain ⟨k', hpure, -⟩ := hold
    cases hpure
  rw [hprogram] at hold
  obtain ⟨k', hq', hserves⟩ := hold
  -- the program is not done, so the host has made no other call since
  obtain rfl : rest = [] := by
    rcases hrest with rfl | hpure
    · rfl
    · rw [hq'] at hpure
      cases hpure
  have hanswer : S.answer a.world (H.choose choice) op = S.answer c.world (H.choose choice) op := by
    rw [h.world]
  have hcalled : H.Ran ⟨p.request, k (S.answer c.world (H.choose choice) op).1,
      p.history ++ [⟨.hosted op, (S.answer c.world (H.choose choice) op).1⟩]⟩
      ⟨q.request, k' (S.answer a.world (H.choose choice) op).1,
        q.history ++ [⟨op, (S.answer a.world (H.choose choice) op).1⟩]⟩ begun [] := by
    refine ⟨?_, hran.begins⟩
    rw [hanswer, hostedCalls_concat, hran.history, List.append_nil, List.append_nil,
      List.append_assoc]
  refine ⟨j, q, k', hguest, hq, hq', ?_, fun i p₁ hp₁ => ?_, h.injective, fun i j' hi => ?_,
    fun i j' hi => ?_, fun j' q' hq' => ?_, fun i p₁ hp₁ before after op' r hsplit => ?_⟩
  · exact congrArg Prod.snd hanswer
  · by_cases hi : i = pid
    · subst hi
      rw [System.getElem?_call_self hp] at hp₁
      obtain rfl := Option.some.inj hp₁
      refine .inr ⟨j, _, begun, [], hguest, System.getElem?_call_self hq, hcalled, .inl rfl, ?_⟩
      show H.Serves _ _ _ (k' (S.answer a.world (H.choose choice) op).1)
      rw [hanswer]
      exact hserves _
    · rw [System.getElem?_call_of_ne hi] at hp₁
      rcases h.serves i p₁ hp₁ with hnone | ⟨j', q', before, after, hguest', hq', hrest⟩
      · exact .inl hnone
      · -- another host runs another program
        have hj : j' ≠ j := fun heq => hi (h.injective i pid j (heq ▸ hguest') hguest)
        exact .inr ⟨j', q', before, after, hguest',
          by rw [System.getElem?_call_of_ne hj, hq'], hrest⟩
  · rw [System.Config.call, List.length_set]
    exact h.exists_host i j' hi
  · rw [System.Config.call, List.length_set]
    exact h.exists_guest i j' hi
  · by_cases hj : j' = j
    · subst hj
      rw [System.getElem?_call_self hq] at hq'
      obtain rfl := Option.some.inj hq'
      exact ⟨pid, _, System.getElem?_call_self hp, begun, [], hcalled⟩
    · rw [System.getElem?_call_of_ne hj] at hq'
      exact h.exists_isGuest_call hp hq'
  · -- a call made before is still one of its process
    have hold (i : ℕ) (p₀ : H.system.Process) (hp₀ : c.procs[i]? = some p₀)
        (before after : HostHistory OwnRes Res) (hsplit : p₀.history =
          before ++ ⟨.hosted op', r⟩ :: after) : ∃ (j' : ℕ) (q' : S.Process),
        (a.call j (H.choose choice) q op k').procs[j']? = some q' ∧
          H.Makes p₀ q' before ⟨op', r⟩ := by
      obtain ⟨j', q₀, hq₀, hmakes⟩ := h.exists_makes i p₀ hp₀ before after op' r hsplit
      obtain ⟨q₁, hq₁, hrequest, hhistory⟩ := System.exists_longer_call hq hq₀
      exact ⟨j', q₁, hq₁, hmakes.mono hrequest hhistory⟩
    by_cases hi : i = pid
    · subst hi
      rw [System.getElem?_call_self hp] at hp₁
      obtain rfl := Option.some.inj hp₁
      rcases List.split_of_concat hsplit with ⟨after', hearlier⟩ | ⟨rfl, hlast⟩
      · exact hold i p hp before after' hearlier
      · cases hlast
        refine ⟨j, _, System.getElem?_call_self hq, begun, q.history, [], ?_, hran.begins, ?_⟩
        · rw [hran.history, List.append_nil]
        · show _ ++ [_] = _ ++ [_]
          rw [hanswer]
    · rw [System.getElem?_call_of_ne hi] at hp₁
      exact hold i p₁ hp₁ before after hsplit

end Steps

/-- **Hosts beside each other do what the system does.** `R` is what the run of hosts is assumed to
keep to, and `R'` what follows of it for the run of the system. -/
theorem exists_run {R : H.system.Config → H.system.Event → Prop} {R' : S.Config → S.Event → Prop}
    (hserves : ∀ host, H.Serves host (H.program host) [] (.pure ()))
    (harrive : ∀ a request, R' a (.arrive request))
    (hact : ∀ c a guest pid choice j, H.Simulates c a guest → guest pid = some j →
      R c (.act pid choice) → R' a (.act j (H.choose choice)))
    (events : List H.system.Event) (halong : System.Along R events) :
    ∃ (events' : List S.Event) (guest : ℕ → Option ℕ),
      H.Simulates (H.system.run events) (S.run events') guest ∧ System.Along R' events' := by
  induction events using List.reverseRecOn with
  | nil =>
    refine ⟨[], _, simulates_initial, fun pre e post heq => ?_⟩
    simp at heq
  | append_singleton events e ih =>
    obtain ⟨hearlier, hlast⟩ := halong.concat
    obtain ⟨events', guest, h, halong'⟩ := ih hearlier
    rw [System.run_concat]
    cases e with
    | arrive host => exact ⟨events', guest, h.arrive host (hserves host), halong'⟩
    | act pid choice =>
      simp only [System.step]
      split
      · exact ⟨events', guest, h, halong'⟩
      rename_i p hp
      split
      · exact ⟨events', guest, h, halong'⟩
      rename_i op k hprogram
      cases op with
      | own o =>
        obtain ⟨program, hold⟩ : ∃ program, H.Serves p.request p.program p.history program := by
          rcases h.serves pid p hp with ⟨-, hold⟩ | ⟨j, q, -, -, -, -, -, -, hold⟩
          · exact ⟨_, hold⟩
          · exact ⟨_, hold⟩
        rw [hprogram] at hold
        rcases hold.2 (H.ask (H.system.run events).world choice o) with
          hnothing | ⟨request, hbegins, hbegun⟩
        · exact ⟨events', guest, h.own hp hprogram hnothing, halong'⟩
        · refine ⟨events' ++ [.arrive request],
            Function.update guest pid (some (S.run events').procs.length), ?_,
            System.along_concat halong' (harrive _ _)⟩
          rw [System.run_concat]
          exact h.begin hp hbegins hbegun
      | hosted op =>
        obtain ⟨j, q, k', hguest, hq, hq', hnext⟩ := h.hosted choice hp hprogram
        refine ⟨events' ++ [.act j (H.choose choice)], guest, ?_,
          System.along_concat halong' (hact _ _ _ _ _ j h hguest hlast)⟩
        rw [System.run_concat, System.step, hq]
        simp only [hq']
        exact hnext

end Hosting
