import Sysknife.Canonical
import Sysknife.Dispatcher.Recheck
import Sysknife.Lib.Framing

/-!
# What a request hash binds

A request hash is taken over the name of the action, a NUL and the canonical rendering of its
parameters. A name has no NUL, so the message gives the name away, and canonical JSON gives the
parameters away up to the order of keys: nothing else can make two messages equal, and nothing
else can tell them apart (`requestHashMessage_eq_iff`).
-/

namespace Sysknife.Dispatcher

/-- Parameters as `serde_json` holds them. -/
abbrev Params := { v : Value // v.WellFormed }

/-- **Request hashes bind exactly.** Two messages are equal exactly if the actions have the same
name and the parameters are the same value up to the order of keys. -/
theorem requestHashMessage_eq_iff {a b : String} (ha : 0 ∉ utf8 a) (hb : 0 ∉ utf8 b)
    (p q : Params) :
    requestHashMessage a p = requestHashMessage b q ↔ a = b ∧ p.val.Same q.val := by
  rw [requestHashMessage, requestHashMessage]
  constructor
  · intro h
    obtain ⟨hname, hparams⟩ := Escaping.append_cons_cancel ha hb h
    exact ⟨utf8_injective hname, (Value.canonicalJson_eq_iff p.2 q.2).mp (utf8_injective hparams)⟩
  · rintro ⟨rfl, hsame⟩
    rw [(Value.canonicalJson_eq_iff p.2 q.2).mpr hsame]

/-- Reordered keys do not matter. -/
theorem requestHashMessage_eq_iff_reordered :
    let p : Params := ⟨.obj [("user", .str "ana"), ("groups", .arr [.str "wheel", .int 4])], by
      simp [Value.WellFormed, Value.WellFormedMembers, Value.WellFormedItems]⟩
    let q : Params := ⟨.obj [("groups", .arr [.str "wheel", .int 4]), ("user", .str "ana")], by
      simp [Value.WellFormed, Value.WellFormedMembers, Value.WellFormedItems]⟩
    requestHashMessage "AddUserToGroup" p = requestHashMessage "AddUserToGroup" q := by
  refine (requestHashMessage_eq_iff (by decide) (by decide) _ _).mpr ⟨rfl, ?_⟩
  have huser : Value.Same (.str "ana") (.str "ana") := by rw [Value.Same]
  have hnumber : Value.Same (.int 4) (.int 4) := by rw [Value.Same, Value.numberText]
  have hgroups : Value.Same (.arr [.str "wheel", .int 4]) (.arr [.str "wheel", .int 4]) :=
    Value.same_arr.mpr (.cons (by rw [Value.Same]) (.cons hnumber .nil))
  refine Value.same_obj.mpr ⟨?_, by simp⟩
  simp only [List.forall_mem_cons]
  exact ⟨⟨_, by simp, huser⟩, ⟨_, by simp, hgroups⟩, by simp⟩

end Sysknife.Dispatcher
