import Sysknife.Lib.Prog

/-!
# Programs that run alone

A program that nothing else interferes with, and that meets the same choice of the outside at each
of its calls, is a function from the world to a result and the world after it (`Prog.alone`).

* `Prog.alone_bind`: the rule of sequential composition.
* `System.exists_run_serial`: requests that are served one after the other, each to its end before
  the next one arrives, are a run of the system.
-/

namespace Prog

variable {Op : Type} {Res : Op → Type} {World α β : Type}

/-- The result of a program on its own, and the world after it. -/
def alone (answer : World → (op : Op) → Res op × World) : Prog Op Res α → World → α × World
  | .pure a, w => (a, w)
  | .call op k, w => (k (answer w op).1).alone answer (answer w op).2

variable {answer : World → (op : Op) → Res op × World}

@[simp] theorem alone_pure (a : α) (w : World) : (Prog.pure a).alone answer w = (a, w) := rfl

@[simp] theorem alone_call (op : Op) (k : Res op → Prog Op Res α) (w : World) :
    (Prog.call op k).alone answer w = (k (answer w op).1).alone answer (answer w op).2 := rfl

@[simp] theorem alone_perform (op : Op) (w : World) :
    (perform op : Prog Op Res (Res op)).alone answer w = answer w op := rfl

theorem alone_bind (p : Prog Op Res α) (f : α → Prog Op Res β) (w : World) :
    (p >>= f).alone answer w = (f (p.alone answer w).1).alone answer (p.alone answer w).2 := by
  induction p generalizing w with
  | pure a => rfl
  | call op k ih => exact ih (answer w op).1 (answer w op).2

end Prog

namespace System

variable {Op : Type} {Res : Op → Type} (S : System Op Res)

/-- The world after requests that are served one after the other, each under a choice of its
own. -/
def serial (requests : List (S.Request × S.Choice)) : S.World :=
  requests.foldl (fun w r => ((S.program r.1).alone (S.answer · r.2) w).2) S.initial

variable {S}

theorem serial_concat (requests : List (S.Request × S.Choice)) (r : S.Request × S.Choice) :
    S.serial (requests ++ [r]) =
      ((S.program r.1).alone (S.answer · r.2) (S.serial requests)).2 := by
  simp [serial]

/-- The newest process makes its calls until it has ended. -/
theorem exists_acts {choice : S.Choice} (p : Prog Op Res Unit) (w : S.World)
    (procs : List S.Process) (request : S.Request) (history : List (Call Op Res)) :
    ∃ n history', (List.replicate n (.act procs.length choice)).foldl step
        (⟨w, procs ++ [⟨request, p, history⟩]⟩ : S.Config) =
      ⟨(p.alone (S.answer · choice) w).2, procs ++ [⟨request, .pure (), history'⟩]⟩ := by
  induction p generalizing w history with
  | pure a => exact ⟨0, history, rfl⟩
  | call op k ih =>
    obtain ⟨n, history', hrest⟩ := ih (S.answer w choice op).1 (S.answer w choice op).2
      (history ++ [⟨op, (S.answer w choice op).1⟩])
    have hnewest : (procs ++ [(⟨request, .call op k, history⟩ : S.Process)])[procs.length]? =
        some ⟨request, .call op k, history⟩ := List.getElem?_concat_length
    have hstep : step (⟨w, procs ++ [⟨request, .call op k, history⟩]⟩ : S.Config)
        (.act procs.length choice) = ⟨(S.answer w choice op).2, procs ++
          [⟨request, k (S.answer w choice op).1,
            history ++ [⟨op, (S.answer w choice op).1⟩]⟩]⟩ := by
      simp only [step, hnewest, Config.call]
      congr 1
      exact List.set_append_right _ _ (Nat.le_refl _) |>.trans (by simp)
    refine ⟨n + 1, history', ?_⟩
    rw [List.replicate_succ, List.foldl_cons, hstep]
    exact hrest

/-- **Requests served one after the other are a run**, in which every process has ended and the
outside chose nothing else. -/
theorem exists_run_serial (requests : List (S.Request × S.Choice)) : ∃ events : List S.Event,
    arrivals events = requests.map Prod.fst ∧ (S.run events).world = S.serial requests ∧
      (∀ p ∈ (S.run events).procs, p.program = .pure ()) ∧
      ∀ pid choice, .act pid choice ∈ events → choice ∈ requests.map Prod.snd := by
  induction requests using List.reverseRecOn with
  | nil => exact ⟨[], rfl, rfl, by simp [run], by simp⟩
  | append_singleton requests r ih =>
    obtain ⟨events, harrivals, hworld, hended, hchoices⟩ := ih
    rcases hrun : S.run events with ⟨w, procs⟩
    rw [hrun] at hworld hended
    subst hworld
    obtain ⟨n, history, hacts⟩ := @exists_acts _ _ S r.2 (S.program r.1) (S.serial requests)
      procs r.1 []
    have hafter : S.run (events ++ (.arrive r.1 :: List.replicate n (.act procs.length r.2))) =
        ⟨S.serial (requests ++ [r]), procs ++ [⟨r.1, .pure (), history⟩]⟩ := by
      rw [serial_concat, ← hacts, run, List.foldl_append, ← run, hrun]
      rfl
    refine ⟨_, ?_, congrArg Config.world hafter, ?_, ?_⟩
    · rw [arrivals, List.filterMap_append, ← arrivals, harrivals, List.map_append]
      congr 1
      rw [List.filterMap_cons, List.filterMap_eq_nil_iff.mpr fun e he => by
        rw [List.eq_of_mem_replicate he]]
      rfl
    · rw [hafter]
      exact List.forall_mem_append.mpr ⟨hended, by simp⟩
    · intro pid choice hmem
      rw [List.map_append, List.mem_append]
      obtain hmem | hmem := List.mem_append.mp hmem
      · exact .inl (hchoices pid choice hmem)
      · obtain hmem | hmem := List.mem_cons.mp hmem
        · cases hmem
        · obtain ⟨-, rfl⟩ := Event.act.inj (List.eq_of_mem_replicate hmem)
          exact .inr (List.mem_singleton_self _)

end System
