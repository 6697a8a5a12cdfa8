import Sysknife.Lib.Prog

/-!
# Programs in a world

`Prog.Guarded serve Q post p w` is the weakest precondition of a program run in a world: from `w`,
whatever the outside chooses, the program makes each call in a world where `Q` permits it, and
ends as `post` asks. It composes along `bind`, and `Guarded.permitted` and `Guarded.ends` read it
back for every run (`Leads`).
-/

namespace Prog

variable {Op : Type} {Res : Op → Type} {World Choice α β : Type}

/-! ### Weakest preconditions -/

section

variable (serve : World → Choice → (op : Op) → Res op × World) (Q : World → Op → Prop)

/-- Whatever the outside chooses, every call is permitted where it is made, and the program ends
as `post` asks. -/
def Guarded (post : World → α → Prop) : Prog Op Res α → World → Prop
  | .pure a, w => post w a
  | .call op k, w =>
    Q w op ∧ ∀ choice, Guarded post (k (serve w choice op).1) (serve w choice op).2

/-- A run of a program, up to some point. -/
inductive Leads : Prog Op Res α → World → Prog Op Res α → World → Prop
  | refl (p : Prog Op Res α) (w : World) : Leads p w p w
  | call {op : Op} {k : Res op → Prog Op Res α} {w w' : World} {q : Prog Op Res α}
    (choice : Choice) : Leads (k (serve w choice op).1) (serve w choice op).2 q w' →
      Leads (.call op k) w q w'

end

variable {serve : World → Choice → (op : Op) → Res op × World} {Q : World → Op → Prop}
  {post : World → α → Prop} {w w' : World}

theorem Guarded.mono {post' : World → α → Prop} {p : Prog Op Res α}
    (h : Guarded serve Q post p w) (hpost : ∀ w a, post w a → post' w a) :
    Guarded serve Q post' p w := by
  induction p generalizing w with
  | pure a => exact hpost w a h
  | call op k ih => exact ⟨h.1, fun choice => ih _ (h.2 choice)⟩

/-- The rule of sequential composition. -/
theorem guarded_bind {p : Prog Op Res α} {f : α → Prog Op Res β} {post : World → β → Prop}
    (h : Guarded serve Q (fun w a => Guarded serve Q post (f a) w) p w) :
    Guarded serve Q post (p >>= f) w := by
  induction p generalizing w with
  | pure a => exact h
  | call op k ih => exact ⟨h.1, fun choice => ih _ (h.2 choice)⟩

/-- A program with a specification of its own, and something to follow. -/
theorem Guarded.bind {p : Prog Op Res α} {f : α → Prog Op Res β} {post' : World → β → Prop}
    (h : Guarded serve Q post p w)
    (hrest : ∀ w a, post w a → Guarded serve Q post' (f a) w) :
    Guarded serve Q post' (p >>= f) w :=
  guarded_bind (h.mono hrest)

/-- The rule of a call with something to follow. -/
theorem guarded_perform_bind {op : Op} {f : Res op → Prog Op Res β} {post : World → β → Prop}
    (hop : Q w op) (hrest : ∀ choice, Guarded serve Q post (f (serve w choice op).1)
      (serve w choice op).2) : Guarded serve Q post (perform op >>= f) w :=
  ⟨hop, hrest⟩

/-- The rule of a last call. -/
theorem guarded_perform {op : Op} {post : World → Res op → Prop} (hop : Q w op)
    (hpost : ∀ choice, post (serve w choice op).2 (serve w choice op).1) :
    Guarded serve Q post (perform op) w :=
  ⟨hop, hpost⟩

/-- What is left of a guarded program is guarded. -/
theorem Guarded.leads {p q : Prog Op Res α} (h : Guarded serve Q post p w)
    (hleads : Leads serve p w q w') : Guarded serve Q post q w' := by
  induction hleads with
  | refl p w => exact h
  | call choice _ ih => exact ih (h.2 choice)

/-- Every call is permitted where it is made. -/
theorem Guarded.permitted {p : Prog Op Res α} {op : Op} {k : Res op → Prog Op Res α}
    (h : Guarded serve Q post p w) (hleads : Leads serve p w (.call op k) w') : Q w' op :=
  (h.leads hleads).1

/-- The program ends as was asked. -/
theorem Guarded.ends {p : Prog Op Res α} {a : α} (h : Guarded serve Q post p w)
    (hleads : Leads serve p w (.pure a) w') : post w' a :=
  h.leads hleads

variable (serve) in
/-- What is left of a program after some choices of the outside, and the world then. -/
def drive : List Choice → Prog Op Res α → World → Prog Op Res α × World
  | choice :: choices, .call op k, w =>
    drive choices (k (serve w choice op).1) (serve w choice op).2
  | _, p, w => (p, w)

theorem leads_drive (choices : List Choice) (p : Prog Op Res α) (w : World) :
    Leads serve p w (drive serve choices p w).1 (drive serve choices p w).2 := by
  induction choices generalizing p w with
  | nil =>
    cases p with
    | pure a => exact .refl _ _
    | call op k => exact .refl _ _
  | cons choice choices ih =>
    cases p with
    | pure a => exact .refl _ _
    | call op k => exact .call choice (ih _ _)

end Prog
