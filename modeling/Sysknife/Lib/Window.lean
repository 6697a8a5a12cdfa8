import Mathlib.Data.List.Basic
import Mathlib.Tactic.Basic

/-!
# Sliding windows

A limiter over a log of times lets a call through when the log holds fewer than `limit` times of
the last `width` units, and then forgets what is older and records the call. Whatever the log
holds at first, no interval of `width` units contains more than `limit` of the calls let through
(`length_admitted_le`), as long as the clock does not go back.
-/

namespace Window

/-- The times of a log that are at most `width` units old. -/
def recent (width : ℕ) (log : List ℕ) (now : ℕ) : List ℕ := log.filter fun t => now - width ≤ t

/-- The times of the calls that are let through, for a log and the times of all calls. -/
def admitted (limit width : ℕ) : List ℕ → List ℕ → List ℕ
  | _, [] => []
  | log, now :: calls =>
    if (recent width log now).length < limit then
      now :: admitted limit width (recent width log now ++ [now]) calls
    else admitted limit width log calls

/-- The times between `start` and `start + width`. -/
def within (width start : ℕ) (times : List ℕ) : List ℕ :=
  times.filter fun t => start ≤ t ∧ t ≤ start + width

variable {limit width start now : ℕ} {log calls : List ℕ}

/-- Only times of calls are let through. -/
theorem mem_of_mem_admitted {t : ℕ} (h : t ∈ admitted limit width log calls) : t ∈ calls := by
  induction calls generalizing log with
  | nil => exact h
  | cons now calls ih =>
    rw [admitted] at h
    split_ifs at h
    · rcases List.mem_cons.mp h with rfl | h
      · exact List.mem_cons_self
      · exact List.mem_cons_of_mem _ (ih h)
    · exact List.mem_cons_of_mem _ (ih h)

/-- Up to the end of an interval nothing of the interval is forgotten. -/
theorem within_recent (h : now ≤ start + width) :
    within width start (recent width log now) = within width start log := by
  rw [within, within, recent, List.filter_filter]
  refine List.filter_congr fun t _ => ?_
  rw [Bool.eq_iff_iff, Bool.and_eq_true, decide_eq_true_eq, decide_eq_true_eq]
  constructor
  · exact fun hboth => hboth.1
  · intro ht
    exact ⟨ht, by omega⟩

theorem within_append_singleton : within width start (log ++ [now]) =
    within width start log ++ if start ≤ now ∧ now ≤ start + width then [now] else [] := by
  rw [within, List.filter_append, within]
  congr 1
  by_cases h : start ≤ now ∧ now ≤ start + width
  · rw [if_pos h, List.filter_cons_of_pos (by simpa using h), List.filter_nil]
  · rw [if_neg h, List.filter_cons_of_neg (by simpa using h), List.filter_nil]

theorem within_eq_nil (h : ∀ t ∈ log, start + width < t) : within width start log = [] := by
  rw [within, List.filter_eq_nil_iff]
  intro t ht
  rw [decide_eq_true_eq, not_and, Nat.not_le]
  exact fun _ => h t ht

/-- Of an interval, either nothing more is let through, or what the log holds of it and what is
let through stay within the limit. -/
theorem within_admitted (hclock : calls.Pairwise (· ≤ ·)) :
    within width start (admitted limit width log calls) = [] ∨
      (within width start log).length +
        (within width start (admitted limit width log calls)).length ≤ limit := by
  induction calls generalizing log with
  | nil => exact .inl rfl
  | cons now calls ih =>
    obtain ⟨hnow, hcalls⟩ := List.pairwise_cons.mp hclock
    rw [admitted]
    split_ifs with hfull
    · by_cases hlate : start + width < now
      · -- the interval is over
        refine .inl (within_eq_nil fun t ht => ?_)
        rcases List.mem_cons.mp ht with rfl | ht
        · exact hlate
        · exact Nat.lt_of_lt_of_le hlate (hnow t (mem_of_mem_admitted ht))
      · rw [Nat.not_lt] at hlate
        have hnext := @ih (recent width log now ++ [now]) hcalls
        rw [within_append_singleton, within_recent hlate] at hnext
        by_cases hearly : start ≤ now
        · -- the call is in the interval, and all the log holds of it is recent
          have hin : start ≤ now ∧ now ≤ start + width := ⟨hearly, hlate⟩
          have hrecent : (within width start log).length ≤ (recent width log now).length := by
            rw [← within_recent hlate]
            exact List.length_filter_le _ _
          have hcons : within width start
              (now :: admitted limit width (recent width log now ++ [now]) calls) =
                now :: within width start
                  (admitted limit width (recent width log now ++ [now]) calls) := by
            rw [within, List.filter_cons_of_pos (by simpa using hin), within]
          rw [if_pos hin, List.length_append, List.length_singleton] at hnext
          rw [hcons, List.length_cons]
          right
          rcases hnext with hnil | hle
          · rw [hnil, List.length_nil]
            omega
          · omega
        · have hout : ¬(start ≤ now ∧ now ≤ start + width) := fun h => hearly h.1
          have hcons : within width start
              (now :: admitted limit width (recent width log now ++ [now]) calls) =
                within width start
                  (admitted limit width (recent width log now ++ [now]) calls) := by
            rw [within, List.filter_cons_of_neg (by simpa using hout), within]
          rw [if_neg hout, List.append_nil] at hnext
          rw [hcons]
          exact hnext
    · exact ih hcalls

/-- **The bound.** No interval of `width` units contains more than `limit` calls let through. -/
theorem length_admitted_le (log : List ℕ) (start : ℕ) (hclock : calls.Pairwise (· ≤ ·)) :
    (within width start (admitted limit width log calls)).length ≤ limit := by
  have hwithin : within width start (admitted limit width log calls) = [] ∨ _ :=
    within_admitted hclock
  rcases hwithin with hnil | hle
  · rw [hnil]
    exact Nat.zero_le _
  · omega

end Window
