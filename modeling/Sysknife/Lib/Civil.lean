import Mathlib.Data.Int.Order.Basic
import Mathlib.Logic.Function.Iterate
import Mathlib.Tactic.NormNum
import Mathlib.Tactic.SplitIfs

/-!
# The Gregorian calendar

A **date** carries its own validity: a month of the year and a day of that month. The calendar is
its order of days (`Date.next`), and `daysFromCivil` is the usual closed form of the number of a
day, counted from 1970-01-01. It goes up by one from each day to the next
(`number_next`), so that it orders the days (`Date.number_lt_iff`) and tells them apart
(`Date.number_injective`), and the day of a number is what is reached by walking the calendar
(`Date.eq_iterate_next`).
-/

namespace Civil

/-- Every fourth year, without the centuries that are not divisible by 400. -/
def IsLeap (y : ℤ) : Prop := y % 4 = 0 ∧ (y % 100 ≠ 0 ∨ y % 400 = 0)

instance (y : ℤ) : Decidable (IsLeap y) := inferInstanceAs (Decidable (_ ∧ _))

def daysInMonth (y : ℤ) (m : ℕ) : ℕ :=
  if m = 2 then if IsLeap y then 29 else 28
  else if m = 4 ∨ m = 6 ∨ m = 9 ∨ m = 11 then 30 else 31

/-- A day of the proleptic Gregorian calendar. -/
@[ext] structure Date where
  year : ℤ
  month : ℕ
  day : ℕ
  month_mem : 1 ≤ month ∧ month ≤ 12
  day_mem : 1 ≤ day ∧ day ≤ daysInMonth year month

theorem daysInMonth_pos (y : ℤ) (m : ℕ) : 1 ≤ daysInMonth y m := by
  rw [daysInMonth]
  split_ifs <;> omega

namespace Date

/-- 1970-01-01. -/
def epoch : Date := ⟨1970, 1, 1, by omega, by decide⟩

/-- The day after. -/
def next (c : Date) : Date :=
  if h : c.day < daysInMonth c.year c.month then
    ⟨c.year, c.month, c.day + 1, c.month_mem, by omega, h⟩
  else if h : c.month < 12 then
    ⟨c.year, c.month + 1, 1, by omega, by omega, daysInMonth_pos _ _⟩
  else ⟨c.year + 1, 1, 1, by omega, by omega, daysInMonth_pos _ _⟩

/-- The order of the days: by year, month and day. -/
def Before (a b : Date) : Prop :=
  a.year < b.year ∨ a.year = b.year ∧ (a.month < b.month ∨ a.month = b.month ∧ a.day < b.day)

theorem before_trichotomy (a b : Date) : a.Before b ∨ a = b ∨ b.Before a := by
  rcases a with ⟨y, m, d, hm, hd⟩
  rcases b with ⟨y', m', d', hm', hd'⟩
  simp only [Before, Date.mk.injEq]
  omega

end Date

/-! ### The number of a day

Years are counted from March, so that the leap day is the last day of its year. -/

/-- The year of a month, for years that begin in March. -/
def marchYear (y : ℤ) (m : ℕ) : ℤ := if m ≤ 2 then y - 1 else y

/-- The days of the year, from the first of March, that lie before a month. -/
def daysBeforeMonth (m : ℕ) : ℕ := (153 * (if m > 2 then m - 3 else m + 9) + 2) / 5

/-- The number of a day, from 1970-01-01. -/
def daysFromCivil (y : ℤ) (m d : ℕ) : ℤ :=
  let y := marchYear y m
  let era := y / 400
  let yoe := y - era * 400
  let doy := (daysBeforeMonth m : ℤ) + d - 1
  let doe := yoe * 365 + yoe / 4 - yoe / 100 + doy
  era * 146097 + doe - 719468

def Date.number (c : Date) : ℤ := daysFromCivil c.year c.month c.day

/-- Without the eras: they only keep the year small. -/
theorem daysFromCivil_eq (y : ℤ) (m d : ℕ) : daysFromCivil y m d =
    marchYear y m * 365 + marchYear y m / 4 - marchYear y m / 100 + marchYear y m / 400 +
      daysBeforeMonth m + d - 719469 := by
  rw [daysFromCivil]
  generalize marchYear y m = n
  omega

theorem number_epoch : Date.epoch.number = 0 := by decide

/-- The year turns at the end of February, and the leap day is what it turns on. -/
theorem daysFromCivil_march (y : ℤ) :
    daysFromCivil y 3 1 = daysFromCivil y 2 (daysInMonth y 2) + 1 := by
  have hmonths : daysBeforeMonth 3 = 0 ∧ daysBeforeMonth 2 = 337 := by decide
  simp only [daysFromCivil_eq, hmonths, marchYear]
  by_cases hleap : IsLeap y
  · have hlength : daysInMonth y 2 = 29 := by rw [daysInMonth, if_pos rfl, if_pos hleap]
    rw [IsLeap] at hleap
    rw [hlength]
    norm_num
    omega
  · have hlength : daysInMonth y 2 = 28 := by rw [daysInMonth, if_pos rfl, if_neg hleap]
    rw [IsLeap] at hleap
    rw [hlength]
    norm_num
    omega

/-- The last day of a month is the day before the first of the next month. -/
theorem daysFromCivil_month_succ {y : ℤ} {m : ℕ} (hm : 1 ≤ m) (hm' : m < 12) :
    daysFromCivil y (m + 1) 1 = daysFromCivil y m (daysInMonth y m) + 1 := by
  by_cases hfeb : m = 2
  · rw [hfeb]
    exact daysFromCivil_march y
  have hyear : marchYear y (m + 1) = marchYear y m := by
    rw [marchYear, marchYear]
    split_ifs <;> omega
  have hdays : daysBeforeMonth (m + 1) = daysBeforeMonth m + daysInMonth y m := by
    have hmonths : m = 1 ∨ m = 3 ∨ m = 4 ∨ m = 5 ∨ m = 6 ∨ m = 7 ∨ m = 8 ∨ m = 9 ∨ m = 10 ∨
        m = 11 := by omega
    rcases hmonths with rfl | rfl | rfl | rfl | rfl | rfl | rfl | rfl | rfl | rfl <;> rfl
  rw [daysFromCivil_eq, daysFromCivil_eq, hyear, hdays]
  push_cast
  omega

theorem daysFromCivil_year_succ (y : ℤ) :
    daysFromCivil (y + 1) 1 1 = daysFromCivil y 12 31 + 1 := by
  have hmonths : daysBeforeMonth 1 = 306 ∧ daysBeforeMonth 12 = 275 := by decide
  simp only [daysFromCivil_eq, hmonths, marchYear]
  norm_num
  omega

theorem daysFromCivil_add (y : ℤ) (m d e : ℕ) :
    daysFromCivil y m (d + e) = daysFromCivil y m d + e := by
  simp only [daysFromCivil_eq]
  omega

/-- From each day to the next, the number goes up by one. -/
theorem number_next (c : Date) : c.next.number = c.number + 1 := by
  have hd := c.day_mem
  have hm := c.month_mem
  rw [Date.next]
  split_ifs with hday hmonth
  · exact daysFromCivil_add _ _ _ 1
  · have hlast : c.day = daysInMonth c.year c.month := by omega
    rw [Date.number, Date.number, hlast]
    exact daysFromCivil_month_succ hm.1 hmonth
  · have hdec : c.month = 12 := by omega
    have hlast : c.day = 31 := by
      rw [hdec] at hd hday
      simp only [daysInMonth] at hd hday
      norm_num at hd hday
      omega
    rw [Date.number, Date.number, hlast, hdec]
    exact daysFromCivil_year_succ _

/-! ### The order of the days -/

/-- A month lies before the months after it. -/
theorem daysFromCivil_lt_of_month_lt {y : ℤ} {m n : ℕ} (hm : 1 ≤ m) (hlt : m < n) (hn : n ≤ 12) :
    daysFromCivil y m (daysInMonth y m) < daysFromCivil y n 1 := by
  induction n, hlt using Nat.le_induction with
  | base =>
    rw [daysFromCivil_month_succ hm (by omega)]
    omega
  | succ n hmn ih =>
    have hbefore := ih (by omega)
    have hturn := daysFromCivil_month_succ (y := y) (m := n) (by omega) (by omega)
    obtain ⟨e, he⟩ := Nat.exists_eq_add_of_le (daysInMonth_pos y n)
    rw [he, daysFromCivil_add] at hturn
    omega

/-- A year lies before the years after it. -/
theorem daysFromCivil_lt_of_year_lt {y z : ℤ} (h : y < z) :
    daysFromCivil y 12 31 < daysFromCivil z 1 1 := by
  have hmonths : daysBeforeMonth 1 = 306 ∧ daysBeforeMonth 12 = 275 := by decide
  simp only [daysFromCivil_eq, hmonths, marchYear]
  norm_num
  omega

namespace Date

theorem first_le_number (c : Date) : daysFromCivil c.year c.month 1 ≤ c.number := by
  obtain ⟨e, he⟩ := Nat.exists_eq_add_of_le c.day_mem.1
  rw [number, he, daysFromCivil_add]
  omega

theorem number_le_last (c : Date) :
    c.number ≤ daysFromCivil c.year c.month (daysInMonth c.year c.month) := by
  obtain ⟨e, he⟩ := Nat.exists_eq_add_of_le c.day_mem.2
  rw [he, daysFromCivil_add, number]
  omega

theorem first_of_year_le_number (c : Date) : daysFromCivil c.year 1 1 ≤ c.number := by
  have hfirst := c.first_le_number
  rcases c.month_mem.1.eq_or_lt with h | h
  · rwa [← h] at hfirst
  · have hjanuary := daysFromCivil_lt_of_month_lt (y := c.year) le_rfl h c.month_mem.2
    have hlength : daysInMonth c.year 1 = 1 + 30 := rfl
    rw [hlength, daysFromCivil_add] at hjanuary
    omega

theorem number_le_last_of_year (c : Date) : c.number ≤ daysFromCivil c.year 12 31 := by
  have hlast := c.number_le_last
  rcases c.month_mem.2.eq_or_lt with h | h
  · rw [h] at hlast
    exact hlast
  · have hdecember := daysFromCivil_lt_of_month_lt (y := c.year) c.month_mem.1 h le_rfl
    have hlength : daysFromCivil c.year 12 31 = daysFromCivil c.year 12 1 + 30 :=
      daysFromCivil_add c.year 12 1 30
    omega

theorem number_lt_of_before {a b : Date} (h : a.Before b) : a.number < b.number := by
  rcases h with hyear | ⟨hyear, hmonth | ⟨hmonth, hday⟩⟩
  · have ha := a.number_le_last_of_year
    have hb := b.first_of_year_le_number
    have hturn := daysFromCivil_lt_of_year_lt hyear
    omega
  · have ha := a.number_le_last
    have hb := b.first_le_number
    have hturn := daysFromCivil_lt_of_month_lt (y := a.year) a.month_mem.1 hmonth b.month_mem.2
    rw [hyear] at hturn ha
    omega
  · obtain ⟨e, he⟩ := Nat.exists_eq_add_of_lt hday
    rw [number, number, hyear, hmonth, he, Nat.add_assoc, daysFromCivil_add]
    omega

/-- The numbers are in the order of the days. -/
theorem number_lt_iff {a b : Date} : a.number < b.number ↔ a.Before b := by
  refine ⟨fun hlt => ?_, number_lt_of_before⟩
  rcases a.before_trichotomy b with h | rfl | h
  · exact h
  · exact absurd hlt (lt_irrefl _)
  · exact absurd (number_lt_of_before h) hlt.not_gt

theorem number_injective {a b : Date} (h : a.number = b.number) : a = b := by
  rcases a.before_trichotomy b with hlt | heq | hlt
  · exact absurd h (number_lt_of_before hlt).ne
  · exact heq
  · exact absurd h (number_lt_of_before hlt).ne'

theorem number_iterate_next (c : Date) (n : ℕ) : (next^[n] c).number = c.number + n := by
  induction n with
  | zero => simp
  | succ n ih =>
    rw [Function.iterate_succ_apply', number_next, ih]
    push_cast
    omega

/-- **The calendar**: the day of a number is reached from 1970-01-01 by going on from each day to
the next. -/
theorem eq_iterate_next {c : Date} {n : ℕ} (h : c.number = n) : c = next^[n] epoch := by
  refine number_injective ?_
  rw [number_iterate_next, number_epoch, h, zero_add]

end Date

end Civil
