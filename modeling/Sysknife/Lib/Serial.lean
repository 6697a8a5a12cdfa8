import Mathlib.Logic.Relation
import Sysknife.Lib.Prog

/-!
# Two programs and one file

Programs that read a file and replace it as a whole (`FileProg`). Two of them run at once, one
call at a time (`Duo.Step`); nothing keeps one from replacing what the other has read.

An `Update` is the usual program: it may look at the file first, reads it, and replaces it with
what it makes of what it read. Two updates come to the same as one after the other
(`Duo.serial_of_careful`) if neither replaces the file while the other is about to replace it
(`Duo.Careful`), provided that looking first is harmless (`Update.Settles`).
-/

open Relation (ReflTransGen)

/-- The calls of a program over a file with contents `σ`. -/
inductive FileCall (σ : Type) : Type
  | read
  /-- Put other contents in the place of those the file has. -/
  | replace (contents : σ)

namespace FileCall

variable {σ : Type}

/-- What a call answers. -/
def Answer : FileCall σ → Type
  | .read => σ
  | .replace _ => Unit

end FileCall

/-- Programs over a file. -/
abbrev FileProg (σ α : Type) := Prog (FileCall σ) FileCall.Answer α

namespace FileProg

variable {σ α : Type}

def read : FileProg σ σ := Prog.perform (FileCall.read : FileCall σ)

def replace (contents : σ) : FileProg σ Unit := Prog.perform (FileCall.replace contents)

/-- Replace the file if there is something to put in its place. -/
def replaceBy : Option σ → FileProg σ Unit
  | none => .pure ()
  | some contents => replace contents

/-- What the file contains after a program has run alone. -/
def alone : FileProg σ α → σ → σ
  | .pure _, s => s
  | .call .read k, s => alone (k s) s
  | .call (.replace t) k, _ => alone (k ()) t

/-- The next call replaces the file. -/
def AboutToReplace : FileProg σ α → Prop
  | .call (.replace _) _ => True
  | _ => False

/-- A program makes its next call. -/
inductive Acts : σ → FileProg σ α → σ → FileProg σ α → Prop
  | read (s : σ) (k : σ → FileProg σ α) : Acts s (.call .read k) s (k s)
  | replace (s t : σ) (k : Unit → FileProg σ α) : Acts s (.call (.replace t) k) t (k ())

end FileProg

/-- Two programs that run at once. -/
structure Duo (σ : Type) where
  file : σ
  left : FileProg σ Unit
  right : FileProg σ Unit

namespace Duo

open FileProg (Acts AboutToReplace)

variable {σ : Type}

/-- One of the programs makes a call. -/
inductive Step (d : Duo σ) : Duo σ → Prop
  | left {s : σ} {p : FileProg σ Unit} (h : Acts d.file d.left s p) : Step d ⟨s, p, d.right⟩
  | right {s : σ} {q : FileProg σ Unit} (h : Acts d.file d.right s q) : Step d ⟨s, d.left, q⟩

/-- One of the programs makes a call, and does not replace the file while the other one is about to:
that one would then write what it made of contents the file no longer has. -/
inductive Careful (d : Duo σ) : Duo σ → Prop
  | left {s : σ} {p : FileProg σ Unit} (h : Acts d.file d.left s p)
    (hother : AboutToReplace d.left → ¬AboutToReplace d.right) : Careful d ⟨s, p, d.right⟩
  | right {s : σ} {q : FileProg σ Unit} (h : Acts d.file d.right s q)
    (hother : AboutToReplace d.right → ¬AboutToReplace d.left) : Careful d ⟨s, d.left, q⟩

theorem Careful.step {d d' : Duo σ} (h : d.Careful d') : d.Step d' := by
  cases h with
  | left h _ => exact .left h
  | right h _ => exact .right h

/-- The programs change places. -/
def swap (d : Duo σ) : Duo σ := ⟨d.file, d.right, d.left⟩

end Duo

/-! ### Updates -/

/-- A program that replaces a file with what it makes of it. -/
structure Update (σ : Type) where
  /-- A look at the file before anything else. -/
  first : Option (σ → Bool)
  /-- The contents it makes of those it reads, if it changes anything. -/
  next : σ → Option σ

namespace Update

open FileProg (Acts AboutToReplace alone)

variable {σ : Type}

/-- Read the file and replace it. -/
def body (u : Update σ) : FileProg σ Unit := do
  let s ← FileProg.read
  FileProg.replaceBy (u.next s)

/-- The whole program. -/
def script (u : Update σ) : FileProg σ Unit :=
  match u.first with
  | none => u.body
  | some ok => do
    let s ← FileProg.read
    if ok s then u.body else pure ()

/-- Does it go on after the look at these contents? -/
def ok (u : Update σ) (s : σ) : Bool := u.first.elim true (· s)

/-- What it makes of the file on its own. -/
def apply (u : Update σ) (s : σ) : σ := if u.ok s then (u.next s).getD s else s

theorem alone_body (u : Update σ) (s : σ) : alone u.body s = (u.next s).getD s := by
  change alone (FileProg.replaceBy (u.next s)) s = _
  cases u.next s with
  | none => rfl
  | some t => rfl

theorem alone_script (u : Update σ) (s : σ) : alone u.script s = u.apply s := by
  unfold script apply ok
  cases u.first with
  | none => exact alone_body u s
  | some ok =>
    change alone (if ok s then u.body else Prog.pure ()) s = if ok s then _ else s
    split
    · exact alone_body u s
    · rfl

/-- If `v` was let through by a look at contents that `u` then replaced, and would not have been
by a look at the new ones, what it makes of these is what `u` makes of the result of `v`. -/
def Settles (u v : Update σ) : Prop :=
  ∀ s t w, u.ok s = true → u.next s = some t → v.ok s = true → v.ok t = false →
    v.next t = some w → w = u.apply (v.apply s)

/-- Where an update that has not replaced anything stands, when the file had the contents `seen` so
far and now has `s`. -/
inductive Stands (u : Update σ) (seen : σ → Prop) (s : σ) : FileProg σ Unit → Prop
  | fresh : Stands u seen s u.script
  | letThrough {s' : σ} (hseen : seen s') (hok : u.ok s' = true) : Stands u seen s u.body
  | holds {s' t : σ} (hseen : seen s') (hok : u.ok s' = true) (hnext : u.next s = some t) :
    Stands u seen s (FileProg.replace t)
  | idle {s' : σ} (hseen : seen s') (hsame : u.apply s' = s') : Stands u seen s (.pure ())

variable {u v : Update σ} {seen : σ → Prop} {s s' : σ} {p p' : FileProg σ Unit}

theorem apply_of_next_none (h : u.next s = none) : u.apply s = s := by
  unfold apply
  rw [h, Option.getD_none, ite_self]

theorem apply_of_next_some {t : σ} (hok : u.ok s = true) (h : u.next s = some t) :
    u.apply s = t := by
  rw [apply, if_pos hok, h, Option.getD_some]

/-- Having read the file, an update has ended or holds what it makes of it. -/
theorem Stands.of_body {s₁ : σ} (hs : seen s) (hseen : seen s₁) (hok : u.ok s₁ = true)
    (h : Acts s u.body s' p') : s' = s ∧ Stands u seen s p' := by
  cases h with
  | read =>
    refine ⟨rfl, ?_⟩
    change u.Stands seen s (FileProg.replaceBy (u.next s))
    cases hnext : u.next s with
    | none => exact .idle hs (apply_of_next_none hnext)
    | some t => exact .holds hseen hok hnext

theorem Stands.of_script (hs : seen s) (h : Acts s u.script s' p') :
    s' = s ∧ Stands u seen s p' := by
  unfold script at h
  split at h
  · rename_i hfirst
    have hok : u.ok s = true := by rw [ok, hfirst, Option.elim_none]
    exact Stands.of_body hs hs hok h
  · rename_i okay hfirst
    have hok : u.ok s = okay s := by rw [ok, hfirst, Option.elim_some]
    cases h with
    | read =>
      refine ⟨rfl, ?_⟩
      change u.Stands seen s (if okay s then u.body else Prog.pure ())
      split
      · rename_i hlet
        exact .letThrough hs (hok.trans hlet)
      · rename_i hlet
        exact .idle hs (if_neg (by rw [hok]; exact hlet))

/-- **What an update can do next**: go on without touching the file, or replace it with what it made
of the contents the file has, and then it has ended. -/
theorem Stands.acts (h : Stands u seen s p) (hs : seen s) (hacts : Acts s p s' p') :
    (s' = s ∧ Stands u seen s p') ∨
      (AboutToReplace p ∧ p' = .pure () ∧ u.next s = some s' ∧ ∃ s₁, seen s₁ ∧ u.ok s₁ = true) := by
  cases h with
  | fresh => exact .inl (Stands.of_script hs hacts)
  | letThrough hseen hok => exact .inl (Stands.of_body hs hseen hok hacts)
  | holds hseen hok hnext =>
    cases hacts with
    | replace => exact .inr ⟨trivial, rfl, hnext, _, hseen, hok⟩
  | idle hseen hsame => cases hacts

theorem body_ne_pure : u.body ≠ .pure () := fun h => by cases h

theorem script_ne_pure : u.script ≠ .pure () := by
  unfold script
  split
  · exact body_ne_pure
  · exact fun h => by cases h

/-- An update that ended without replacing anything had nothing to change. -/
theorem Stands.apply_eq (h : Stands u seen s p) (hp : p = .pure ()) :
    ∃ s₁, seen s₁ ∧ u.apply s₁ = s₁ := by
  cases h with
  | fresh => exact absurd hp script_ne_pure
  | letThrough hseen hok => exact absurd hp body_ne_pure
  | holds hseen hok hnext => cases hp
  | idle hseen hsame => exact ⟨_, hseen, hsame⟩

/-- An update that holds nothing stands the same when somebody else replaced the file. -/
theorem Stands.moved {seen' : σ → Prop} (h : Stands u seen s p) (hp : ¬AboutToReplace p)
    (hsub : ∀ x, seen x → seen' x) : Stands u seen' s' p := by
  cases h with
  | fresh => exact .fresh
  | letThrough hseen hok => exact .letThrough (hsub _ hseen) hok
  | holds hseen hok hnext => exact absurd trivial hp
  | idle hseen hsame => exact .idle (hsub _ hseen) hsame

end Update

namespace Duo

open FileProg (Acts AboutToReplace alone)
open Update (Stands Settles)

variable {σ : Type} {u v : Update σ} {s₀ : σ}

/-- How far two updates of a file that contained `s₀` have come. -/
inductive Progress (u v : Update σ) (s₀ : σ) : Duo σ → Prop
  | neither {p q : FileProg σ Unit} (hl : Stands u (· = s₀) s₀ p) (hr : Stands v (· = s₀) s₀ q) :
    Progress u v s₀ ⟨s₀, p, q⟩
  | left {t : σ} {q : FileProg σ Unit} (hok : u.ok s₀ = true) (hnext : u.next s₀ = some t)
    (hr : Stands v (fun s => s = s₀ ∨ s = t) t q) : Progress u v s₀ ⟨t, .pure (), q⟩
  | right {t : σ} {p : FileProg σ Unit} (hok : v.ok s₀ = true) (hnext : v.next s₀ = some t)
    (hl : Stands u (fun s => s = s₀ ∨ s = t) t p) : Progress u v s₀ ⟨t, p, .pure ()⟩
  | both {t : σ} (h : t = v.apply (u.apply s₀) ∨ t = u.apply (v.apply s₀)) :
    Progress u v s₀ ⟨t, .pure (), .pure ()⟩

theorem Progress.swap {d : Duo σ} (h : Progress u v s₀ d) : Progress v u s₀ d.swap := by
  cases h with
  | neither hl hr => exact .neither hr hl
  | left hok hnext hr => exact .right hok hnext hr
  | right hok hnext hl => exact .left hok hnext hl
  | both h => exact .both h.symm

/-- The left one makes a call. -/
theorem Progress.of_left (hvu : Settles v u) {d : Duo σ} (h : Progress u v s₀ d) {s : σ}
    {p : FileProg σ Unit} (hacts : Acts d.file d.left s p)
    (hother : AboutToReplace d.left → ¬AboutToReplace d.right) :
    Progress u v s₀ ⟨s, p, d.right⟩ := by
  cases h with
  | neither hl hr =>
    rcases hl.acts rfl hacts with ⟨rfl, hl⟩ | ⟨habout, rfl, hnext, s₁, rfl, hok⟩
    · exact .neither hl hr
    · exact .left hok hnext (hr.moved (hother habout) fun x hx => .inl hx)
  | left hok hnext hr => cases hacts
  | right hok hnext hl =>
    rename_i t q
    have hv : v.apply s₀ = t := Update.apply_of_next_some hok hnext
    rcases hl.acts (.inr rfl) hacts with ⟨rfl, hl⟩ | ⟨habout, rfl, hagain, s₁, hseen, hlet⟩
    · exact .right hok hnext hl
    · refine .both ?_
      -- was it the old contents it was let through by, and would the new ones have done?
      by_cases ht : u.ok t = true
      · exact .inr (by rw [hv, Update.apply_of_next_some ht hagain])
      · rcases hseen with rfl | rfl
        · exact .inl (hvu _ _ _ hok hnext hlet (Bool.eq_false_iff.mpr ht) hagain)
        · exact absurd hlet ht
  | both h => cases hacts

theorem Progress.careful (huv : Settles u v) (hvu : Settles v u) {d d' : Duo σ}
    (h : Progress u v s₀ d) (hstep : d.Careful d') : Progress u v s₀ d' := by
  cases hstep with
  | left hacts hother => exact h.of_left hvu hacts hother
  | right hacts hother => exact (h.swap.of_left huv hacts hother).swap

/-- **Careful updates are one after the other.** -/
theorem serial_of_careful (huv : Settles u v) (hvu : Settles v u) {p q : FileProg σ Unit}
    (hleft : Stands u (· = s₀) s₀ p) (hright : Stands v (· = s₀) s₀ q) {t : σ}
    (hrun : ReflTransGen Careful ⟨s₀, p, q⟩ ⟨t, .pure (), .pure ()⟩) :
    t = v.apply (u.apply s₀) ∨ t = u.apply (v.apply s₀) := by
  have hprogress : ∀ d, ReflTransGen Careful ⟨s₀, p, q⟩ d → Progress u v s₀ d := by
    intro d hd
    induction hd with
    | refl => exact .neither hleft hright
    | tail _ hlast ih => exact ih.careful huv hvu hlast
  generalize hd : (⟨t, .pure (), .pure ()⟩ : Duo σ) = d at hrun
  cases hprogress d hrun with
  | neither hl hr =>
    obtain ⟨rfl, hp, hq⟩ := Duo.mk.inj hd
    obtain ⟨_, rfl, hu⟩ := hl.apply_eq hp.symm
    obtain ⟨_, rfl, hv⟩ := hr.apply_eq hq.symm
    exact .inl (by rw [hu, hv])
  | left hok hnext hr =>
    obtain ⟨rfl, -, hq⟩ := Duo.mk.inj hd
    have hu := Update.apply_of_next_some hok hnext
    obtain ⟨s₁, hseen, hv⟩ := hr.apply_eq hq.symm
    rcases hseen with rfl | rfl
    · exact .inr (by rw [hv, hu])
    · exact .inl (by rw [hu, hv])
  | right hok hnext hl =>
    obtain ⟨rfl, hp, -⟩ := Duo.mk.inj hd
    have hv := Update.apply_of_next_some hok hnext
    obtain ⟨s₁, hseen, hu⟩ := hl.apply_eq hp.symm
    rcases hseen with rfl | rfl
    · exact .inl (by rw [hu, hv])
    · exact .inr (by rw [hv, hu])
  | both h =>
    obtain ⟨rfl, -, -⟩ := Duo.mk.inj hd
    exact h

end Duo
