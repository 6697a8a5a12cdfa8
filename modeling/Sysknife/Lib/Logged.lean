import Mathlib.Data.List.Basic

/-!
# Computations that are logged

A computation that may fail, with what happened on the way in order (`Logged`). What happened
before a failure stays in the log.

* `mem_log_bind`: what happened in a sequence happened in one of its parts, in the second only if
  the first came to a result.
* `All.bind`: what is true of everything in both parts is true of everything in the sequence.
* `Past.of_bind`: a sequence that came to a result, or to an event of a kind that its first part
  does not have, is past its first part.
* `split_unique`: a log is split at the only event of a kind in one way.
-/

universe u v w

/-- What happened, and the result. -/
structure Logged (ω : Type u) (ε : Type v) (α : Type w) where
  log : List ω
  result : Except ε α

namespace Logged

variable {ω : Type u} {ε : Type v} {α β : Type w}

def pure (a : α) : Logged ω ε α := ⟨[], .ok a⟩

def bind (p : Logged ω ε α) (f : α → Logged ω ε β) : Logged ω ε β :=
  match p.result with
  | .ok a => ⟨p.log ++ (f a).log, (f a).result⟩
  | .error e => ⟨p.log, .error e⟩

instance : Monad (Logged ω ε) where
  pure := Logged.pure
  bind := Logged.bind

def throw (e : ε) : Logged ω ε α := ⟨[], .error e⟩

theorem bind_of_ok {p : Logged ω ε α} {a : α} (f : α → Logged ω ε β) (h : p.result = .ok a) :
    p >>= f = ⟨p.log ++ (f a).log, (f a).result⟩ := by
  show Logged.bind p f = _
  rw [Logged.bind, h]

theorem bind_of_error {p : Logged ω ε α} {e : ε} (f : α → Logged ω ε β)
    (h : p.result = .error e) : p >>= f = ⟨p.log, .error e⟩ := by
  show Logged.bind p f = _
  rw [Logged.bind, h]

@[simp]
theorem mk_ok_bind (log : List ω) (a : α) (f : α → Logged ω ε β) :
    (⟨log, .ok a⟩ : Logged ω ε α) >>= f = ⟨log ++ (f a).log, (f a).result⟩ := rfl

@[simp]
theorem mk_error_bind (log : List ω) (e : ε) (f : α → Logged ω ε β) :
    (⟨log, .error e⟩ : Logged ω ε α) >>= f = ⟨log, .error e⟩ := rfl

/-- What happened after the first part happened because it succeeded. -/
theorem mem_log_bind {p : Logged ω ε α} {f : α → Logged ω ε β} {x : ω}
    (h : x ∈ (p >>= f).log) : x ∈ p.log ∨ ∃ a, p.result = .ok a ∧ x ∈ (f a).log := by
  cases hresult : p.result with
  | error e =>
    rw [bind_of_error f hresult] at h
    exact .inl h
  | ok a =>
    rw [bind_of_ok f hresult] at h
    rcases List.mem_append.mp h with h | h
    · exact .inl h
    · exact .inr ⟨a, rfl, h⟩

/-- Everything that happened is of one kind. -/
def All (P : ω → Prop) (p : Logged ω ε α) : Prop := ∀ x ∈ p.log, P x

variable {P Q : ω → Prop}

theorem All.mono {p : Logged ω ε α} (hp : p.All P) (h : ∀ x, P x → Q x) : p.All Q :=
  fun x hx => h x (hp x hx)

theorem all_of_log {p : Logged ω ε α} (h : p.log = []) : p.All P := by
  intro x hx
  rw [h] at hx
  cases hx

theorem All.bind {p : Logged ω ε α} {f : α → Logged ω ε β} (hp : p.All P)
    (hf : ∀ a, (f a).All P) : (p >>= f).All P := by
  intro x hx
  rcases mem_log_bind hx with hx | ⟨a, -, hx⟩
  · exact hp x hx
  · exact hf a x hx

/-- There is a result, or something of the kind happened. -/
def Past (P : ω → Prop) (p : Logged ω ε α) : Prop :=
  (∃ a, p.result = .ok a) ∨ ∃ x ∈ p.log, P x

theorem Past.of_bind {p : Logged ω ε α} {f : α → Logged ω ε β} (hp : p.All fun x => ¬ P x)
    (h : Past P (p >>= f)) : ∃ a, p.result = .ok a ∧ Past P (f a) := by
  rcases h with ⟨b, hresult⟩ | ⟨x, hmem, hx⟩
  · cases hp' : p.result with
    | error e =>
      rw [bind_of_error f hp'] at hresult
      cases hresult
    | ok a =>
      rw [bind_of_ok f hp'] at hresult
      exact ⟨a, rfl, .inl ⟨b, hresult⟩⟩
  · rcases mem_log_bind hmem with hmem | ⟨a, ha, hmem⟩
    · exact absurd hx (hp x hmem)
    · exact ⟨a, ha, .inr ⟨x, hmem, hx⟩⟩

/-- Two splits at the only event of a kind are one. -/
theorem split_unique {a b c d : List ω} {x y : ω} (h : a ++ x :: b = c ++ y :: d) (hx : P x)
    (hc : ∀ z ∈ c, ¬ P z) (hd : ∀ z ∈ d, ¬ P z) : a = c := by
  rcases List.append_eq_append_iff.mp h with ⟨as, rfl, hrest⟩ | ⟨bs, rfl, hrest⟩
  · rcases List.cons_eq_append_iff.mp hrest with ⟨rfl, -⟩ | ⟨as', rfl, -⟩
    · exact (List.append_nil a).symm
    · exact absurd hx (hc x (List.mem_append_right _ List.mem_cons_self))
  · rcases List.cons_eq_append_iff.mp hrest with ⟨rfl, -⟩ | ⟨bs', -, rfl⟩
    · exact List.append_nil c
    · exact absurd hx (hd x (List.mem_append_right _ List.mem_cons_self))

end Logged
