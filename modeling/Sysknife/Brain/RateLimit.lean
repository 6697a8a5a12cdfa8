import Sysknife.Actions.Build
import Sysknife.Lib.Window

/-!
# The rate limit of planning calls

`check_and_consume` keeps the times of the calls in a text file, one time a line. A call is let
through when the file holds fewer than the limit of the last minute's times; otherwise the caller
is told in how many seconds to try again.

* `length_admitted_le`: whatever the file holds at first, no minute contains more calls that are
  let through than the limit.
* `honest_iff`: when the seconds a caller is told are right. A time counts until a minute after
  it *inclusive*, and the hint ends at that very second, so it is a second too early.

The text of the file is what was read of it: nothing, if it could not be read.
-/

namespace Sysknife.Brain

/-- Width of the window, in seconds. -/
def rateLimitWindowSecs : ℕ := 60

/-- The answer to a call. -/
inductive Verdict
  | admitted
  /-- The window is full; try again in so many seconds. -/
  | rejected (retryAfter : ℕ)
  /-- The seconds could not be computed. -/
  | overflow
  deriving DecidableEq, Repr

/-- The times in the file; malformed lines are ignored. -/
def timestamps (raw : String) : List ℕ := (lines raw).filterMap fun l => parseU64 (trim l)

/-- Addition of `u64`. -/
def addU64 (a b : ℕ) : Option ℕ := if a + b < 2 ^ 64 then some (a + b) else none

/-- The times of the window. -/
def inWindow (raw : String) (now : ℕ) : List ℕ :=
  let windowStart := now - rateLimitWindowSecs
  (timestamps raw).filter fun t => windowStart ≤ t

/-- The oldest time of a full window. -/
def oldestInWindow (raw : String) (now : ℕ) : ℕ :=
  (inWindow raw now).min?.getD (now - rateLimitWindowSecs)

/-- One line for each time. -/
def timestampLines (times : List ℕ) : String :=
  String.ofList (times.flatMap fun t => (toString t).toList ++ ['\n'])

/-- Check the window and record the call: the answer, and what the file holds afterwards if
nothing goes wrong with writing it. -/
def checkAndConsume (maxPerMinute : ℕ) (raw : String) (now : ℕ) : Verdict × String :=
  let inWindow := inWindow raw now
  if maxPerMinute ≤ inWindow.length then
    match addU64 (oldestInWindow raw now) rateLimitWindowSecs with
    | some stop => (.rejected (max (stop - now) 1), raw)
    | none => (.overflow, raw)
  else (.admitted, timestampLines (inWindow ++ [now]))

/-- The answers to calls at these times, and the file after them. -/
def answers (maxPerMinute : ℕ) : String → List ℕ → List (ℕ × Verdict) × String
  | raw, [] => ([], raw)
  | raw, now :: calls =>
    let (verdict, raw) := checkAndConsume maxPerMinute raw now
    let (rest, raw) := answers maxPerMinute raw calls
    ((now, verdict) :: rest, raw)

/-- The times of the calls that were let through. -/
def admittedTimes (maxPerMinute : ℕ) (raw : String) (calls : List ℕ) : List ℕ :=
  (answers maxPerMinute raw calls).1.filterMap fun a => if a.2 = .admitted then some a.1 else none

/-! ### Reading back what was written -/

theorem parseU64_toString {n : ℕ} (h : n < 2 ^ 64) : parseU64 (toString n) = some n := by
  have hdigit : ∀ c ∈ (toString n).toList, c.isDigit = true := fun c => isDigit_of_mem_toString
  have hne : (toString n).toList ≠ [] := by
    rw [toList_toString]
    exact Nat.toDigits_ne_nil
  -- A plus sign would be accepted, but is not written.
  have hstart : Text.stripStart "+" (toString n) = none := by
    rw [Text.stripStart, if_neg]
    rw [Text.startsWith]
    intro hplus
    have hmem := (List.isPrefixOf_iff_prefix.mp hplus).subset (List.mem_singleton.mpr rfl)
    exact absurd (hdigit '+' hmem) (by decide)
  have hvalue : Nat.ofDigitChars 10 (toString n).toList 0 = n := by
    rw [toList_toString]
    exact Nat.ofDigitChars_toDigits (by decide) (by decide)
  have hall : (toString n).toList.all Char.isDigit = true := List.all_eq_true.mpr hdigit
  have hempty : (toString n).toList.isEmpty = false := List.isEmpty_eq_false_iff.mpr hne
  rw [parseU64, hstart, Option.getD_none, hempty, hall, if_neg (by decide), hvalue,
    Option.filter_some, if_pos (decide_eq_true h)]

theorem trim_toString (n : ℕ) : trim (toString n) = toString n := by
  have hplain : ∀ c ∈ (toString n).toList, ¬isWhitespace c = true := fun c hc => by
    rw [isWhitespace_of_isDigit (isDigit_of_mem_toString hc)]
    exact Bool.false_ne_true
  have hfront : (toString n).toList.dropWhile isWhitespace = (toString n).toList := by
    rw [List.dropWhile_eq_self_iff]
    exact fun h => hplain _ (List.getElem_mem h)
  have hback : (toString n).toList.rdropWhile isWhitespace = (toString n).toList := by
    rw [List.rdropWhile_eq_self_iff]
    exact fun h => hplain _ (List.getLast_mem h)
  rw [trim, hfront, hback, String.ofList_toList]

/-- What was written is read. -/
theorem timestamps_timestampLines {times : List ℕ} (h : ∀ t ∈ times, t < 2 ^ 64) :
    timestamps (timestampLines times) = times := by
  have hclosed : ∀ l ∈ times.map fun t => (toString t).toList, ∀ c ∈ l, c ≠ '\n' ∧ c ≠ '\r' := by
    intro l hl c hc
    obtain ⟨t, -, rfl⟩ := List.mem_map.mp hl
    have hdigit := isDigit_of_mem_toString hc
    constructor <;> rintro rfl <;> exact absurd hdigit (by decide)
  have hlines : lines (timestampLines times) = times.map toString := by
    rw [timestampLines, ← List.flatMap_map (fun t => (toString t).toList) (· ++ ['\n']),
      lines_closed hclosed, List.map_map]
    exact List.map_congr_left fun t _ => String.ofList_toList
  have hread : ∀ t ∈ times, parseU64 (trim (toString t)) = some t := fun t ht => by
    rw [trim_toString, parseU64_toString (h t ht)]
  rw [timestamps, hlines, List.filterMap_map]
  clear hclosed hlines h
  induction times with
  | nil => rfl
  | cons t times ih =>
    rw [List.filterMap_cons, Function.comp_apply, hread t List.mem_cons_self,
      ih fun t' ht' => hread t' (List.mem_cons_of_mem t ht')]

theorem timestamps_lt (raw : String) : ∀ t ∈ timestamps raw, t < 2 ^ 64 := by
  intro t ht
  obtain ⟨l, -, hl⟩ := List.mem_filterMap.mp ht
  rw [parseU64] at hl
  split_ifs at hl
  obtain ⟨-, hlt⟩ := Option.filter_eq_some_iff.mp hl
  exact of_decide_eq_true hlt

theorem inWindow_eq (raw : String) (now : ℕ) :
    inWindow raw now = Window.recent rateLimitWindowSecs (timestamps raw) now := rfl

/-! ### The bound -/

section Bound

variable {maxPerMinute now : ℕ} {raw : String}

/-- A call that is let through is recorded, after the times of the window. -/
theorem checkAndConsume_admitted (h : (inWindow raw now).length < maxPerMinute) :
    checkAndConsume maxPerMinute raw now =
      (.admitted, timestampLines (inWindow raw now ++ [now])) := by
  rw [checkAndConsume, if_neg (Nat.not_le.mpr h)]

/-- **A call that is not let through leaves the file as it is.** -/
theorem checkAndConsume_refused (h : (checkAndConsume maxPerMinute raw now).1 ≠ .admitted) :
    (checkAndConsume maxPerMinute raw now).2 = raw := by
  unfold checkAndConsume at h ⊢
  -- The file is rewritten only where the call is let through.
  extract_lets at h ⊢
  split_ifs at h ⊢
  · cases addU64 (oldestInWindow raw now) rateLimitWindowSecs with
    | some stop => rfl
    | none => rfl
  · exact absurd rfl h

theorem admitted_iff : (checkAndConsume maxPerMinute raw now).1 = .admitted ↔
    (inWindow raw now).length < maxPerMinute := by
  constructor
  · intro h
    by_contra hfull
    rw [checkAndConsume, if_pos (Nat.not_lt.mp hfull)] at h
    cases hadd : addU64 (oldestInWindow raw now) rateLimitWindowSecs with
    | some stop =>
      rw [hadd] at h
      cases h
    | none =>
      rw [hadd] at h
      cases h
  · intro h
    rw [checkAndConsume_admitted h]

theorem admittedTimes_cons (calls : List ℕ) :
    admittedTimes maxPerMinute raw (now :: calls) =
      (if (checkAndConsume maxPerMinute raw now).1 = .admitted then [now] else []) ++
        admittedTimes maxPerMinute (checkAndConsume maxPerMinute raw now).2 calls := by
  rw [admittedTimes, answers, List.filterMap_cons]
  split_ifs <;> rfl

/-- The file plays the part of the log. -/
theorem admittedTimes_eq {calls : List ℕ} (h : ∀ t ∈ calls, t < 2 ^ 64) :
    admittedTimes maxPerMinute raw calls =
      Window.admitted maxPerMinute rateLimitWindowSecs (timestamps raw) calls := by
  induction calls generalizing raw with
  | nil => rfl
  | cons now calls ih =>
    obtain ⟨hnow, hcalls⟩ := List.forall_mem_cons.mp h
    rw [admittedTimes_cons, Window.admitted, ← inWindow_eq]
    -- A call that is let through is recorded and read back; one that is not changes nothing.
    by_cases hroom : (inWindow raw now).length < maxPerMinute
    · have hlt : ∀ t ∈ inWindow raw now ++ [now], t < 2 ^ 64 := by
        intro t ht
        rcases List.mem_append.mp ht with ht | ht
        · exact timestamps_lt raw t (List.mem_filter.mp ht).1
        · exact List.mem_singleton.mp ht ▸ hnow
      rw [if_pos hroom, if_pos (admitted_iff.mpr hroom), checkAndConsume_admitted hroom, ih hcalls,
        timestamps_timestampLines hlt, List.singleton_append]
    · have hrefused := mt admitted_iff.mp hroom
      rw [if_neg hroom, if_neg hrefused, checkAndConsume_refused hrefused, ih hcalls,
        List.nil_append]

/-- **The rate limit.** As long as the clock does not go back, no minute contains more calls that
are let through than the limit, whatever the file held at first, and a call that is not let
through leaves the file as it is. -/
theorem rate_limit_bound (maxPerMinute : ℕ) (raw : String) (calls : List ℕ)
    (hclock : calls.Pairwise (· ≤ ·)) (hrange : ∀ t ∈ calls, t < 2 ^ 64) :
    (∀ start, ((admittedTimes maxPerMinute raw calls).filter fun t =>
      start ≤ t ∧ t ≤ start + rateLimitWindowSecs).length ≤ maxPerMinute) ∧
    ∀ file now, (checkAndConsume maxPerMinute file now).1 ≠ .admitted →
      timestamps (checkAndConsume maxPerMinute file now).2 = timestamps file := by
  refine ⟨fun start => ?_, fun file now hrefused => ?_⟩
  · rw [admittedTimes_eq hrange]
    exact Window.length_admitted_le (timestamps raw) start hclock
  · rw [checkAndConsume_refused hrefused]

/-- Two calls in the same second, with a limit of one. -/
theorem rate_limit_bound_twice :
    [1000, 1000].Pairwise (· ≤ ·) ∧ (∀ t ∈ [1000, 1000], t < 2 ^ 64) ∧
      admittedTimes 1 "900\n" [1000, 1000] = [1000] ∧
        ((admittedTimes 1 "900\n" [1000, 1000]).filter fun t =>
          1000 ≤ t ∧ t ≤ 1000 + rateLimitWindowSecs).length ≤ 1 := by
  have hrange : ∀ t ∈ [1000, 1000], t < 2 ^ 64 := by decide
  refine ⟨by decide, hrange, ?_,
    (rate_limit_bound 1 "900\n" [1000, 1000] (by decide) hrange).1 1000⟩
  decide

end Bound

/-! ### The hint -/

/-- The seconds a caller is told are right: they can be computed, are at least one, and when they
have passed the call is let through, provided the times newer than a minute ago are then fewer
than the limit. -/
def HonestHint (maxPerMinute : ℕ) (raw : String) (now : ℕ) : Prop :=
  (checkAndConsume maxPerMinute raw now).1 ≠ .overflow ∧
    ∀ retryAfter, (checkAndConsume maxPerMinute raw now).1 = .rejected retryAfter →
      1 ≤ retryAfter ∧
        (((timestamps raw).filter fun t => now + retryAfter < t + rateLimitWindowSecs).length <
            maxPerMinute →
          (checkAndConsume maxPerMinute raw (now + retryAfter)).1 = .admitted)

/-- The second whose times the window still counts when the hint has passed, though they are a
minute old: the oldest of the window, or, if that is a minute old already, the next. -/
def hintBoundary (raw : String) (now : ℕ) : ℕ :=
  max (oldestInWindow raw now) (now + 1 - rateLimitWindowSecs)

section Hint

variable {maxPerMinute now : ℕ} {raw : String}

/-- The answer when the window is full. -/
theorem checkAndConsume_full (hfull : maxPerMinute ≤ (inWindow raw now).length) :
    (checkAndConsume maxPerMinute raw now).1 =
      if oldestInWindow raw now + rateLimitWindowSecs < 2 ^ 64 then
        .rejected (max (oldestInWindow raw now + rateLimitWindowSecs - now) 1)
      else .overflow := by
  rw [checkAndConsume, if_pos hfull, addU64]
  split_ifs <;> rfl

/-- Where the hint leads. -/
theorem hint_leads :
    now + max (oldestInWindow raw now + rateLimitWindowSecs - now) 1 =
      hintBoundary raw now + rateLimitWindowSecs := by
  rw [hintBoundary]
  omega

/-- The times that count when the hint has passed. -/
theorem inWindow_after {boundary later : ℕ} (h : later = boundary + rateLimitWindowSecs) :
    inWindow raw later = (timestamps raw).filter fun t => boundary ≤ t := by
  rw [inWindow, h, Nat.add_sub_cancel]

/-- The times newer than a minute when the hint has passed. -/
theorem newer_after {boundary later : ℕ} (h : later = boundary + rateLimitWindowSecs) :
    ((timestamps raw).filter fun t => later < t + rateLimitWindowSecs) =
      (timestamps raw).filter fun t => boundary < t := by
  refine List.filter_congr fun t _ => ?_
  rw [h, decide_eq_decide]
  omega

/-- **When the hint is honest.** The hint is right exactly when the window has room, or the oldest
time of the window can be added to and the times of the boundary second are not what decides:
the times after it fill the window without them, or with them the window still has room. -/
theorem honest_iff (maxPerMinute : ℕ) (raw : String) (now : ℕ) :
    HonestHint maxPerMinute raw now ↔
      (maxPerMinute ≤ (inWindow raw now).length →
        oldestInWindow raw now + rateLimitWindowSecs < 2 ^ 64 ∧
          (maxPerMinute ≤ ((timestamps raw).filter fun t => hintBoundary raw now < t).length ∨
            ((timestamps raw).filter fun t => hintBoundary raw now ≤ t).length <
              maxPerMinute)) := by
  by_cases hfull : maxPerMinute ≤ (inWindow raw now).length
  · rw [HonestHint, checkAndConsume_full hfull, imp_iff_right hfull]
    by_cases hsmall : oldestInWindow raw now + rateLimitWindowSecs < 2 ^ 64
    · rw [if_pos hsmall, and_iff_right hsmall]
      constructor
      · rintro ⟨-, hhint⟩
        obtain ⟨-, hadmitted⟩ := hhint _ rfl
        rw [newer_after hint_leads, admitted_iff, inWindow_after hint_leads] at hadmitted
        exact (Nat.lt_or_ge _ _).symm.imp_right hadmitted
      · intro hboundary
        refine ⟨fun hoverflow => (by cases hoverflow), ?_⟩
        rintro retryAfter hretry
        obtain rfl := Verdict.rejected.inj hretry
        refine ⟨le_max_right _ _, ?_⟩
        rw [newer_after hint_leads, admitted_iff, inWindow_after hint_leads]
        intro hfew
        exact hboundary.resolve_left (Nat.not_le.mpr hfew)
    · rw [if_neg hsmall]
      constructor
      · exact fun hhint => absurd rfl hhint.1
      · exact fun hcond => absurd hcond.1 hsmall
  · have hadmitted : (checkAndConsume maxPerMinute raw now).1 = .admitted :=
      admitted_iff.mpr (Nat.not_le.mp hfull)
    rw [HonestHint, hadmitted]
    constructor
    · exact fun _ h => absurd h hfull
    · intro _
      exact ⟨fun hoverflow => (by cases hoverflow), fun _ hretry => (by cases hretry)⟩

/-- A call half a minute after the only one a limit of one lets through is told to come back in
half a minute, and is not let through then. -/
theorem hint_too_early : ¬∀ maxPerMinute raw now, HonestHint maxPerMinute raw now := by
  intro h
  have hanswer : (checkAndConsume 1 "1000\n" 1030).1 = .rejected 30 := by
    have holdest : oldestInWindow "1000\n" 1030 = 1000 := by decide
    rw [checkAndConsume_full (by decide), holdest]
    decide
  have hlater : ¬(inWindow "1000\n" (1030 + 30)).length < 1 := by decide
  have hfew : ((timestamps "1000\n").filter fun t =>
      1030 + 30 < t + rateLimitWindowSecs).length < 1 := by decide
  have hadmitted := ((h 1 "1000\n" 1030).2 30 hanswer).2 hfew
  exact hlater (admitted_iff.mp hadmitted)

end Hint

end Sysknife.Brain
