import Mathlib.Order.Basic
import Mathlib.Order.Lattice
import Mathlib.Algebra.Order.Group.Nat
import Mathlib.Data.List.Basic

/-!
# Shared types: job states, roles, callers

The vocabulary of `sysknife-types` and of `auth.rs` that the daemon's stores and handlers
share. `JobState` comes with its transition table (`jobs.rs`): `allowedTransition` is the
table both transaction stores consult, `isTerminal` names the states it never leaves.

A `CallerAttribution` carries the rule its private constructors enforce in the source: a
connection that could not be attributed to an account has the `observer` role.
-/

namespace Sysknife

/-- A fallible computation that answers has answered at every step. -/
theorem exists_of_bind_eq_ok {ε α β : Type} {x : Except ε α} {f : α → Except ε β} {b : β}
    (h : (x >>= f) = .ok b) : ∃ a, x = .ok a ∧ f a = .ok b := by
  cases x with
  | error e => cases h
  | ok a => exact ⟨a, rfl, h⟩

theorem bind_eq_ok_iff {ε α β : Type} {x : Except ε α} {f : α → Except ε β} {b : β} :
    (x >>= f) = .ok b ↔ ∃ a, x = .ok a ∧ f a = .ok b := by
  refine ⟨exists_of_bind_eq_ok, ?_⟩
  rintro ⟨a, rfl, h⟩
  exact h

theorem ok_bind {ε α β : Type} (a : α) (f : α → Except ε β) : (Except.ok a >>= f) = f a := rfl

/-- A guard that refuses has not refused. -/
theorem ite_error_eq_ok_iff {ε α : Type} {p : Prop} {_ : Decidable p} {e : ε} {x : Except ε α}
    {a : α} : (if p then .error e else x) = .ok a ↔ ¬p ∧ x = .ok a := by
  by_cases hp : p <;> simp [hp]

/-- Risk tier of an action. -/
inductive RiskLevel
  | low
  | medium
  | high
  deriving DecidableEq, Repr

/-- The spelling signed into the audit chain. -/
def RiskLevel.asStr : RiskLevel → String
  | .low => "low"
  | .medium => "medium"
  | .high => "high"

theorem RiskLevel.asStr_injective {r r' : RiskLevel} (h : r.asStr = r'.asStr) : r = r' := by
  cases r <;> cases r' <;> first | rfl | exact absurd h (by decide)

/-- Life-cycle state of a transaction. -/
inductive JobState
  | queued
  | running
  | succeeded
  | failed
  | canceled
  | rolledBack
  | needsReboot
  deriving DecidableEq, Repr

namespace JobState

/-- The job status transition table. -/
def allowedTransition : JobState → JobState → Bool
  | .queued, .running => true
  | .queued, .canceled => true
  | .running, .succeeded => true
  | .running, .failed => true
  | .running, .canceled => true
  | .running, .rolledBack => true
  | .running, .needsReboot => true
  | _, _ => false

/-- Is this a state no transition may leave? -/
def isTerminal : JobState → Bool
  | .succeeded | .failed | .canceled | .rolledBack | .needsReboot => true
  | .queued | .running => false

/-- The terminal states are exactly those without an outgoing edge. -/
theorem isTerminal_iff_no_transition (s : JobState) :
    s.isTerminal = true ↔ ∀ t, s.allowedTransition t = false := by
  constructor
  · intro h t
    cases s <;> first | exact absurd h (by decide) | cases t <;> rfl
  · intro h
    cases s with
    | queued => exact absurd (h .running) (by decide)
    | running => exact absurd (h .failed) (by decide)
    | _ => rfl

/-- `Running` is entered from `Queued` only. -/
theorem eq_queued_of_allowedTransition_running {s : JobState}
    (h : s.allowedTransition .running = true) : s = .queued := by
  cases s <;> first | rfl | exact absurd h (by decide)

/-- Nothing returns to `Queued`. -/
theorem not_allowedTransition_queued (s : JobState) : s.allowedTransition .queued = false := by
  cases s <;> rfl

end JobState

/-- Role the daemon resolved for a connection. -/
inductive CallerRole
  | observer
  | dev
  | admin
  | boot
  deriving DecidableEq, Repr

namespace CallerRole

/-- Position in the derived order of the source enumeration. -/
def rank : CallerRole → ℕ
  | .observer => 0
  | .dev => 1
  | .admin => 2
  | .boot => 3

theorem rank_injective : Function.Injective rank := by
  intro a b h
  cases a <;> cases b <;> first | rfl | exact absurd h (by decide)

instance : LinearOrder CallerRole := LinearOrder.lift' rank rank_injective

/-- Stable lowercase spelling, signed into the audit chain. -/
def asStr : CallerRole → String
  | .observer => "observer"
  | .dev => "dev"
  | .admin => "admin"
  | .boot => "boot"

end CallerRole

/-- Who asked, as opposed to what they were allowed to do. -/
inductive CallerPrincipal
  /-- A Unix-socket peer whose uid the kernel supplied. -/
  | uid (n : ℕ)
  /-- A vsock connection authenticated by the pre-shared token. -/
  | vsockToken
  /-- The daemon could establish no account. -/
  | unattributed
  deriving DecidableEq, Repr

namespace CallerPrincipal

/-- Evidence class of the principal. -/
def scheme : CallerPrincipal → String
  | .uid _ => "uid"
  | .vsockToken => "token"
  | .unattributed => "none"

/-- The scheme-specific part. -/
def value : CallerPrincipal → String
  | .uid n => toString n
  | .vsockToken => "vsock"
  | .unattributed => "unattributed"

/-- The exact string signed into the chain and stored in `caller_principal`. -/
def asSignedStr (p : CallerPrincipal) : String := p.scheme ++ ":" ++ p.value

theorem asSignedStr_ne_empty (p : CallerPrincipal) : p.asSignedStr ≠ "" := by
  intro h
  have h' := congrArg String.toList h
  cases p <;> simp [asSignedStr, scheme] at h'

end CallerPrincipal

/-- Decimal rendering of a counter loses nothing. -/
theorem toString_nat_injective {m n : ℕ} (h : toString m = toString n) : m = n := by
  have h' := congrArg String.toList h
  simp only [Nat.toString_eq_repr, Nat.toList_repr] at h'
  rw [← Nat.ofDigitChars_toDigits (b := 10) (n := m) (by decide) (by decide), h',
    Nat.ofDigitChars_toDigits (by decide) (by decide)]

/-- The signed spelling names one principal, so comparing spellings compares accounts. -/
theorem CallerPrincipal.asSignedStr_injective {p q : CallerPrincipal}
    (h : p.asSignedStr = q.asSignedStr) : p = q := by
  have h' := congrArg String.toList h
  cases p with
  | uid m =>
    cases q with
    | uid n =>
      simp only [asSignedStr, scheme, value, String.toList_append] at h'
      rw [toString_nat_injective (String.toList_inj.mp (List.append_cancel_left h'))]
    | vsockToken => simp [asSignedStr, scheme, value] at h'
    | unattributed => simp [asSignedStr, scheme, value] at h'
  | vsockToken => cases q <;> first | rfl | simp [asSignedStr, scheme, value] at h'
  | unattributed => cases q <;> first | rfl | simp [asSignedStr, scheme, value] at h'

/-- Role plus principal for one connection, resolved by the daemon and never taken from the
request body. An attribution failure never carries a privileged role. -/
structure CallerAttribution where
  /-- Decides what the connection may call. -/
  role : CallerRole
  /-- Which account asked. -/
  principal : CallerPrincipal
  observer_of_unattributed : principal = .unattributed → role = .observer

namespace CallerAttribution

/-- A Unix-socket peer, attributed to the uid the kernel reported. -/
def fromPeerUid (n : ℕ) (role : CallerRole) : CallerAttribution :=
  ⟨role, .uid n, by simp⟩

/-- A vsock peer that presented the pre-shared token. -/
def fromVsockToken (role : CallerRole) : CallerAttribution :=
  ⟨role, .vsockToken, by simp⟩

/-- A connection the daemon could not attribute. -/
def unattributed : CallerAttribution :=
  ⟨.observer, .unattributed, fun _ => rfl⟩

end CallerAttribution

end Sysknife
