import Mathlib.Logic.Relation
import Sysknife.Lib.Prog

/-!
# Programs in a world that moves

A program makes its calls one after the other, and the world goes on by itself between them
(`Around`): what `step` allows may happen any number of times before each call, and `answer`
says what a call may answer and what it does to the world. `Around.Runs` is a whole run, with
the world each call was made in.

Runs are taken apart along the program (`runs_pure`, `runs_perform_bind`, `runs_bind`).
-/

open Relation (ReflTransGen)

/-- What goes on around a program. -/
structure Around (Op : Type) (Res : Op → Type) (World : Type) where
  /-- What others do. -/
  step : World → World → Prop
  /-- What a call may answer, and what it makes of the world. -/
  answer : World → (op : Op) → Res op → World → Prop

namespace Around

variable {Op : Type} {Res : Op → Type} {World α β : Type} (E : Around Op Res World)

/-- Others do anything they may, any number of times. -/
abbrev Passes : World → World → Prop := ReflTransGen E.step

/-- From the world `w` the program can make these calls, each in the world it stands with, and
end with the answer `a` in the world `w'`. -/
inductive Runs : Prog Op Res α → World → List (World × Call Op Res) → α → World → Prop
  | pure (a : α) (w : World) : Runs (.pure a) w [] a w
  | call {op : Op} {k : Res op → Prog Op Res α} {w u v w' : World} {r : Res op}
    {calls : List (World × Call Op Res)} {a : α} (hbefore : E.Passes w u)
    (hanswer : E.answer u op r v) (hrest : Runs (k r) v calls a w') :
    Runs (.call op k) w ((u, ⟨op, r⟩) :: calls) a w'

variable {E} {w w' : World} {calls : List (World × Call Op Res)}

theorem runs_pure {a b : α} : E.Runs (Pure.pure a) w calls b w' ↔ calls = [] ∧ b = a ∧ w' = w := by
  constructor
  · intro h
    cases h with
    | pure => exact ⟨rfl, rfl, rfl⟩
  · rintro ⟨rfl, rfl, rfl⟩
    exact .pure b w'

theorem runs_perform_bind {op : Op} {f : Res op → Prog Op Res α} {a : α} :
    E.Runs (Prog.perform op >>= f) w calls a w' ↔ ∃ u r v rest,
      E.Passes w u ∧ E.answer u op r v ∧ calls = (u, ⟨op, r⟩) :: rest ∧
        E.Runs (f r) v rest a w' := by
  constructor
  · intro h
    cases h with
    | call hbefore hanswer hrest => exact ⟨_, _, _, _, hbefore, hanswer, rfl, hrest⟩
  · rintro ⟨u, r, v, rest, hbefore, hanswer, rfl, hrest⟩
    exact .call hbefore hanswer hrest

/-- A composition runs its parts one after the other. -/
theorem runs_bind {p : Prog Op Res α} {f : α → Prog Op Res β} {b : β} :
    E.Runs (p >>= f) w calls b w' ↔ ∃ first a v rest,
      E.Runs p w first a v ∧ E.Runs (f a) v rest b w' ∧ calls = first ++ rest := by
  constructor
  · intro h
    induction p generalizing w calls with
    | pure a => exact ⟨[], a, w, calls, .pure a w, h, rfl⟩
    | call op k ih =>
      cases h with
      | call hbefore hanswer hrun =>
        obtain ⟨first, a, v, rest, hfirst, hrest, heq⟩ := ih _ hrun
        exact ⟨_, a, v, rest, .call hbefore hanswer hfirst, hrest, by rw [heq, List.cons_append]⟩
  · rintro ⟨first, a, v, rest, hp, hf, rfl⟩
    induction hp with
    | pure a w => exact hf
    | call hbefore hanswer _ ih => exact .call hbefore hanswer (ih hf)

/-- What the surroundings and every call keep, a run keeps. -/
theorem Runs.kept {R : World → World → Prop} (hrefl : ∀ u, R u u)
    (htrans : ∀ u v x, R u v → R v x → R u x) (hstep : ∀ u v, E.step u v → R u v)
    (hanswer : ∀ u op r v, E.answer u op r v → R u v) {p : Prog Op Res α} {a : α}
    (h : E.Runs p w calls a w') : R w w' := by
  have hpasses {u v : World} (h : E.Passes u v) : R u v := by
    induction h with
    | refl => exact hrefl u
    | tail _ hlast ih => exact htrans _ _ _ ih (hstep _ _ hlast)
  induction h with
  | pure a w => exact hrefl w
  | call hbefore hcall _ ih =>
    exact htrans _ _ _ (hpasses hbefore) (htrans _ _ _ (hanswer _ _ _ _ hcall) ih)

end Around
