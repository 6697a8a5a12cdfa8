import Sysknife.Lib.Civil
import Sysknife.Lib.Numerals

/-!
# The time stamp of an audit entry

The time of a rejected plan is written as RFC 3339 text in UTC, by integer arithmetic on the
seconds of the system clock. Every unsigned subtraction of that arithmetic may underflow and is
`none` here where it does.

The arithmetic inverts the number of a day of the calendar (`civilFromDays_number`), so that
**from the epoch to the end of the year 9999 the text is the Gregorian date and the time of day of
its second** and the texts are in the order of the seconds (`formatRfc3339_calendar`).
-/

namespace Sysknife.Brain

open Civil Numerals

/-- A time of the system clock, from the Unix epoch on. -/
structure SystemTime where
  secs : ℤ
  nanos : ℕ
  secs_i64 : -2 ^ 63 ≤ secs ∧ secs < 2 ^ 63
  nanos_lt : nanos < 1000000000

/-- Whole seconds since the epoch; none where the clock is before it. -/
def SystemTime.secsSinceEpoch (t : SystemTime) : ℕ := if 0 ≤ t.secs then t.secs.toNat else 0

/-- `a - b` of unsigned numbers. -/
def subU64 (a b : ℕ) : Option ℕ := if b ≤ a then some (a - b) else none

theorem subU64_eq {a b : ℕ} (h : b ≤ a) : subU64 a b = some (a - b) := if_pos h

/-- The cast of a signed number. -/
def asU64 (x : ℤ) : ℕ := (x % 2 ^ 64).toNat

/-- Year, month and day from the days since the epoch. -/
def civilFromDays (days : ℤ) : Option (ℤ × ℕ × ℕ) := do
  let z := days + 719468
  let era := (if z ≥ 0 then z else z - 146096).tdiv 146097
  let doe := asU64 (z - era * 146097)
  let yoe := (← subU64 ((← subU64 doe (doe / 1460)) + doe / 36524) (doe / 146096)) / 365
  let y := yoe + era * 400
  let doy ← subU64 doe (← subU64 (365 * yoe + yoe / 4) (yoe / 100))
  let mp := (5 * doy + 2) / 153
  let d := (← subU64 doy ((153 * mp + 2) / 5)) + 1
  let m ← (if mp < 10 then some (mp + 3) else subU64 mp 9)
  let y := if m ≤ 2 then y + 1 else y
  return (y, m, d)

/-- A signed number with zeros in front of it. -/
def paddedInt (width : ℕ) (x : ℤ) : List Char :=
  if 0 ≤ x then padded width x.toNat else '-' :: padded (width - 1) (-x).toNat

/-- The text of a date and a second of the day. -/
def dateTimeText (y : ℤ) (m d timeOfDay : ℕ) : List Char :=
  let hours := timeOfDay / 3600
  let minutes := timeOfDay % 3600 / 60
  let seconds := timeOfDay % 60
  paddedInt 4 y ++ '-' :: padded 2 m ++ '-' :: padded 2 d ++ 'T' :: padded 2 hours ++
    ':' :: padded 2 minutes ++ ':' :: padded 2 seconds ++ ['Z']

def formatRfc3339 (t : SystemTime) : Option String := do
  let secs := t.secsSinceEpoch
  let (y, m, d) ← civilFromDays (secs / 86400 : ℕ)
  return String.ofList (dateTimeText y m d (secs % 86400))

/-! ### The date -/

/-- The day `k` of the `s`-th of four years, of the `q`-th four years of the `c`-th century of an
era. Dividing by 365 gives its year once the leap days before it are taken off: the divisors count
a leap day too early by at most one, and on no first day of a year. -/
theorem yearOfEra_of_parts {c q s k doe : ℕ} (hc : c < 4) (hq : q < 25) (hs : s < 4)
    (hk : k ≤ 365) (hleap : k = 365 → s = 3 ∧ (q = 24 → c = 3))
    (hdoe : doe = 36524 * c + 1461 * q + 365 * s + k) :
    (doe - doe / 1460 + doe / 36524 - doe / 146096) / 365 = 100 * c + 4 * q + s := by
  by_cases hlast : k = 365 ∧ q = 24
  -- the last day of the era, a leap day of a century
  · obtain ⟨rfl, rfl⟩ := hlast
    obtain ⟨rfl, hc3⟩ := hleap rfl
    obtain rfl := hc3 rfl
    rw [hdoe]
  have hrest : 1461 * q + 365 * s + k < 36524 := by omega
  have hera : doe / 146096 = 0 := Nat.div_eq_of_lt (by omega)
  have hcentury : doe / 36524 = c := Nat.div_eq_of_lt_le (by omega) (by omega)
  obtain ⟨early, hearly⟩ : ∃ early, early = (24 * c + q + 365 * s + k) / 1460 := ⟨_, rfl⟩
  have hfour : doe / 1460 = 25 * c + q + early := by
    have hsplit : doe = 1460 * (25 * c + q) + (24 * c + q + 365 * s + k) := by omega
    rw [hsplit, Nat.mul_add_div (by omega), ← hearly]
  have hshort : early ≤ k ∧ k ≤ 364 + early := by omega
  have hsum : doe - doe / 1460 + doe / 36524 - doe / 146096 =
      365 * (100 * c + 4 * q + s) + (k - early) := by
    rw [hera, hcentury, hfour, hdoe]
    omega
  rw [hsum, Nat.mul_add_div (by omega), Nat.div_eq_of_lt (by omega), Nat.add_zero]

/-- The year of an era is found from the day of the era. -/
theorem yearOfEra_eq {r k doe : ℕ} (hr : r < 400) (hk : k ≤ 365)
    (hleap : k = 365 → (r + 1) % 4 = 0 ∧ ((r + 1) % 100 ≠ 0 ∨ (r + 1) % 400 = 0))
    (hdoe : doe = 365 * r + r / 4 - r / 100 + k) :
    (doe - doe / 1460 + doe / 36524 - doe / 146096) / 365 = r := by
  obtain ⟨c, q, s, hc, hq, hs, rfl⟩ : ∃ c q s, c < 4 ∧ q < 25 ∧ s < 4 ∧ r = 100 * c + 4 * q + s :=
    ⟨r / 100, r % 100 / 4, r % 4, by omega, by omega, by omega, by omega⟩
  have hfours : (100 * c + 4 * q + s) / 4 = 25 * c + q := by omega
  have hcenturies : (100 * c + 4 * q + s) / 100 = c := by omega
  refine yearOfEra_of_parts hc hq hs hk (fun hlast => ?_) (by omega)
  obtain ⟨hfourth, hcentury⟩ := hleap hlast
  exact ⟨by omega, by omega⟩

/-- The place of a month in a year that begins in March. -/
def marchMonth (m : ℕ) : ℕ := if m > 2 then m - 3 else m + 9

/-- A month of such a year ends where the next one begins; February ends the year. -/
theorem daysBeforeMonth_add_le (c : Date) :
    daysBeforeMonth c.month + c.day ≤ (153 * (marchMonth c.month + 1) + 2) / 5 ∧
      (c.month = 2 → c.day ≤ 29 ∧ (c.day = 29 → IsLeap c.year)) := by
  have hd := c.day_mem.2
  obtain ⟨hm, hm'⟩ := c.month_mem
  generalize c.month = m at hd hm hm' ⊢
  constructor
  · refine (Nat.add_le_add_left hd _).trans ?_
    have hfeb : daysInMonth c.year 2 ≤ 29 := by
      rw [daysInMonth, if_pos rfl]
      split_ifs <;> omega
    have hmonths : m = 2 ∨ m = 1 ∨ m = 3 ∨ m = 4 ∨ m = 5 ∨ m = 6 ∨ m = 7 ∨ m = 8 ∨ m = 9 ∨
        m = 10 ∨ m = 11 ∨ m = 12 := by omega
    rcases hmonths with rfl | hmonths
    · exact (Nat.add_le_add_left hfeb _).trans (by decide)
    · rcases hmonths with rfl | rfl | rfl | rfl | rfl | rfl | rfl | rfl | rfl | rfl | rfl
      all_goals
        exact Nat.le_of_ble_eq_true rfl
  · rintro rfl
    rw [daysInMonth, if_pos rfl] at hd
    split_ifs at hd with hleap
    · exact ⟨hd, fun _ => hleap⟩
    · exact ⟨by omega, fun h => by omega⟩

/-- The day of the year, from the first of March: the 366th is a leap day. -/
theorem dayOfYear_le (c : Date) : daysBeforeMonth c.month + c.day - 1 ≤ 365 ∧
    (daysBeforeMonth c.month + c.day - 1 = 365 → c.month = 2 ∧ IsLeap c.year) := by
  have hm := c.month_mem
  have hd := c.day_mem.1
  obtain ⟨hend, hfeb⟩ := daysBeforeMonth_add_le c
  by_cases hmonth : c.month = 2
  · obtain ⟨hday, hleap⟩ := hfeb hmonth
    have hbefore : daysBeforeMonth c.month = 337 := by rw [hmonth]; rfl
    exact ⟨by omega, fun h => ⟨hmonth, hleap (by omega)⟩⟩
  · have hplace : marchMonth c.month ≤ 10 := by
      rw [marchMonth]
      split_ifs <;> omega
    exact ⟨by omega, fun h => by omega⟩

/-- The month is found from the day of the year. -/
theorem marchMonth_eq (c : Date) :
    (5 * (daysBeforeMonth c.month + c.day - 1) + 2) / 153 = marchMonth c.month := by
  have hd := c.day_mem.1
  have hend := (daysBeforeMonth_add_le c).1
  have hbegin : daysBeforeMonth c.month = (153 * marchMonth c.month + 2) / 5 := rfl
  rw [hbegin] at hend ⊢
  generalize marchMonth c.month = p at hend ⊢
  exact Nat.div_eq_of_lt_le (by omega) (by omega)

/-- The era of a day and the day of the era. -/
theorem number_eq_era (c : Date) : ∃ r doe : ℕ, r < 400 ∧ doe < 146097 ∧
    doe = 365 * r + r / 4 - r / 100 + (daysBeforeMonth c.month + c.day - 1) ∧
    (daysBeforeMonth c.month + c.day - 1 = 365 →
      (r + 1) % 4 = 0 ∧ ((r + 1) % 100 ≠ 0 ∨ (r + 1) % 400 = 0)) ∧
    marchYear c.year c.month = r + marchYear c.year c.month / 400 * 400 ∧
    c.number + 719468 = marchYear c.year c.month / 400 * 146097 + doe := by
  have hd := c.day_mem.1
  obtain ⟨hdoy, hlast⟩ := dayOfYear_le c
  have hnumber : c.number = _ := daysFromCivil_eq c.year c.month c.day
  have hleap : daysBeforeMonth c.month + c.day - 1 = 365 →
      IsLeap (marchYear c.year c.month + 1) := by
    intro h
    obtain ⟨hmonth, hyear⟩ := hlast h
    have hmarch : marchYear c.year c.month + 1 = c.year := by
      rw [marchYear, if_pos (by omega)]
      omega
    rwa [hmarch]
  rw [IsLeap] at hleap
  generalize marchYear c.year c.month = y at hnumber hleap ⊢
  refine ⟨(y % 400).toNat, _, by omega, ?_, rfl, fun h => ?_, by omega, by omega⟩
  · omega
  · have := hleap h
    omega

/-- The truncating division, corrected for days before the first era, rounds down. -/
theorem era_eq {era : ℤ} {doe : ℕ} (h : doe < 146097) :
    (if era * 146097 + (doe : ℤ) ≥ 0 then era * 146097 + (doe : ℤ)
      else era * 146097 + (doe : ℤ) - 146096).tdiv 146097 = era := by
  split_ifs with hsign
  · rw [Int.tdiv_eq_ediv_of_nonneg hsign]
    omega
  · rw [← Int.neg_neg (era * 146097 + (doe : ℤ) - 146096), Int.neg_tdiv,
      Int.tdiv_eq_ediv_of_nonneg (by omega)]
    omega

/-- Back from its place in the year to the month. -/
theorem month_eq (c : Date) : (if marchMonth c.month < 10 then some (marchMonth c.month + 3)
    else subU64 (marchMonth c.month) 9) = some c.month := by
  have hm := c.month_mem
  have hplace : marchMonth c.month = if c.month > 2 then c.month - 3 else c.month + 9 := rfl
  split_ifs at hplace ⊢ with h₁ h₂ h₂
  · exact congrArg some (by omega)
  · omega
  · omega
  · rw [subU64_eq (by omega)]
    exact congrArg some (by omega)

/-- **The date of a day**: the arithmetic inverts the number of a day. -/
theorem civilFromDays_number (c : Date) :
    civilFromDays c.number = some (c.year, c.month, c.day) := by
  have hm := c.month_mem
  have hd := c.day_mem.1
  have hmonth := marchMonth_eq c
  obtain ⟨hdoy, -⟩ := dayOfYear_le c
  obtain ⟨r, doe, hr, hlt, hdoe, hleap, hyear, hnumber⟩ := number_eq_era c
  have hyoe := yearOfEra_eq hr hdoy hleap hdoe
  have hbegin : daysBeforeMonth c.month = (153 * marchMonth c.month + 2) / 5 := rfl
  rw [hbegin] at hdoe hdoy hmonth
  generalize hk : (153 * marchMonth c.month + 2) / 5 + c.day - 1 = k at hdoe hdoy hmonth
  generalize marchYear c.year c.month / 400 = era at hyear hnumber
  have hcast : asU64 (era * 146097 + (doe : ℤ) - era * 146097) = doe := by
    rw [asU64]
    omega
  -- no subtraction underflows
  have hyears : doe / 1460 ≤ doe := Nat.div_le_self _ _
  have hyears' : doe / 146096 ≤ doe - doe / 1460 + doe / 36524 := by omega
  have hcenturies : r / 100 ≤ 365 * r + r / 4 := by omega
  have hstart : 365 * r + r / 4 - r / 100 ≤ doe := by omega
  have hfirst : (153 * marchMonth c.month + 2) / 5 ≤ k := by omega
  have hdayOfYear : doe - (365 * r + r / 4 - r / 100) = k := by omega
  have hday : k - (153 * marchMonth c.month + 2) / 5 + 1 = c.day := by omega
  simp only [civilFromDays, hnumber, era_eq hlt, hcast, subU64_eq hyears, subU64_eq hyears', hyoe,
    subU64_eq hcenturies, subU64_eq hstart, hdayOfYear, hmonth, subU64_eq hfirst, hday,
    month_eq, Option.bind_eq_bind, Option.bind_some]
  have hturn : (if c.month ≤ 2 then (r : ℤ) + era * 400 + 1 else r + era * 400) = c.year := by
    rw [← hyear, marchYear]
    split_ifs <;> omega
  rw [hturn]
  rfl

/-! ### The text -/

theorem dateTimeText_eq {c : Date} (h : 0 ≤ c.year) (timeOfDay : ℕ) :
    dateTimeText c.year c.month c.day timeOfDay =
      padded 4 c.year.toNat ++ ('-' :: (padded 2 c.month ++ ('-' :: (padded 2 c.day ++
        ('T' :: (padded 2 (timeOfDay / 3600) ++ (':' :: (padded 2 (timeOfDay % 3600 / 60) ++
          (':' :: (padded 2 (timeOfDay % 60) ++ ['Z'])))))))))) := by
  simp only [dateTimeText, paddedInt, if_pos h, List.append_assoc, List.cons_append]

/-- A field is compared first, and what follows it only where the fields agree. -/
theorem field_lt_iff {k m n : ℕ} {sep : Char} {a b : List Char} (hm : m < 10 ^ (k + 1))
    (hn : n < 10 ^ (k + 1)) :
    padded (k + 1) m ++ (sep :: a) < padded (k + 1) n ++ (sep :: b) ↔
      m < n ∨ m = n ∧ a < b := by
  rw [append_lt_append_iff (by rw [length_padded hm, length_padded hn]),
    padded_lt_padded_iff hm hn, List.cons_lt_cons_self]
  exact or_congr_right (and_congr_left fun _ => ⟨padded_injective, fun h => h ▸ rfl⟩)

theorem day_lt (c : Date) : c.day < 10 ^ 2 := by
  have hend := (daysBeforeMonth_add_le c).1
  have hbegin : daysBeforeMonth c.month = (153 * marchMonth c.month + 2) / 5 := rfl
  omega

/-- The times of a day are in the order of hour, minute and second. -/
theorem time_lt_iff {s s' : ℕ} : (s / 3600 < s' / 3600 ∨ s / 3600 = s' / 3600 ∧
    (s % 3600 / 60 < s' % 3600 / 60 ∨ s % 3600 / 60 = s' % 3600 / 60 ∧ s % 60 < s' % 60)) ↔
      s < s' := by
  have hs : s = 3600 * (s / 3600) + 60 * (s % 3600 / 60) + s % 60 := by omega
  have hs' : s' = 3600 * (s' / 3600) + 60 * (s' % 3600 / 60) + s' % 60 := by omega
  have hminute : s % 3600 / 60 < 60 ∧ s' % 3600 / 60 < 60 := by omega
  have hsecond : s % 60 < 60 ∧ s' % 60 < 60 := by omega
  generalize s / 3600 = h, s % 3600 / 60 = m, s % 60 = e at *
  generalize s' / 3600 = h', s' % 3600 / 60 = m', s' % 60 = e' at *
  rw [hs, hs']
  omega

/-- The texts of two seconds are in the order of the seconds. -/
theorem dateTimeText_lt_iff {c c' : Date} {s s' : ℕ} (hy : 0 ≤ c.year ∧ c.year ≤ 9999)
    (hy' : 0 ≤ c'.year ∧ c'.year ≤ 9999) (hs : s < 86400) (hs' : s' < 86400) :
    dateTimeText c.year c.month c.day s < dateTimeText c'.year c'.month c'.day s' ↔
      c.number * 86400 + s < c'.number * 86400 + s' := by
  have hm := c.month_mem
  have hm' := c'.month_mem
  have hd := day_lt c
  have hd' := day_lt c'
  rw [dateTimeText_eq hy.1, dateTimeText_eq hy'.1, field_lt_iff (by omega) (by omega),
    field_lt_iff (by omega) (by omega), field_lt_iff hd hd', field_lt_iff (by omega) (by omega),
    field_lt_iff (by omega) (by omega), field_lt_iff (by omega) (by omega)]
  have hnil : ¬([] : List Char) < [] := List.not_lt_nil _
  rcases c.before_trichotomy c' with h | rfl | h
  · have hnumber := Date.number_lt_of_before h
    rw [Date.Before] at h
    refine iff_of_true ?_ (by omega)
    omega
  · simp only [hnil, and_false, or_false, lt_self_iff_false, false_or, true_and, time_lt_iff]
    omega
  · have hnumber := Date.number_lt_of_before h
    rw [Date.Before] at h
    refine iff_of_false ?_ (by omega)
    omega

/-- The seconds from the epoch to the end of the year 9999. -/
def SystemTime.InRange (t : SystemTime) : Prop := 0 ≤ t.secs ∧ t.secs < 253402300800

/-- The UTC date and time of a text: the `YYYY-MM-DDThh:mm:ssZ` of RFC 3339. -/
def rfc3339 (c : Date) (hour minute second : ℕ) : String :=
  String.ofList (padded 4 c.year.toNat ++ '-' :: padded 2 c.month ++ '-' :: padded 2 c.day ++
    'T' :: padded 2 hour ++ ':' :: padded 2 minute ++ ':' :: padded 2 second ++ ['Z'])

/-- A second of a day is printed with the date of the day. -/
theorem formatRfc3339_of_number {t : SystemTime} {c : Date} (ht : 0 ≤ t.secs)
    (hday : t.secs / 86400 = c.number) : formatRfc3339 t =
      some (String.ofList (dateTimeText c.year c.month c.day (t.secs % 86400).toNat)) := by
  have hsecs : t.secsSinceEpoch = t.secs.toNat := if_pos ht
  have hcast : ((t.secs.toNat / 86400 : ℕ) : ℤ) = c.number := by omega
  have hrest : t.secs.toNat % 86400 = (t.secs % 86400).toNat := by omega
  simp only [formatRfc3339, hsecs, hcast, civilFromDays_number, hrest]
  rfl

/-- Every second from the epoch to the end of 9999 lies in a day of a year of four digits. -/
theorem exists_number {t : SystemTime} (h : t.InRange) :
    ∃ c : Date, t.secs / 86400 = c.number ∧ 0 ≤ c.year ∧ c.year ≤ 9999 := by
  obtain ⟨hfrom, hbefore⟩ := h
  obtain ⟨c, hc⟩ : ∃ c : Date, c.number = (t.secs / 86400).toNat :=
    ⟨_, by rw [Date.number_iterate_next Date.epoch, number_epoch, Int.zero_add]⟩
  have hfirst : daysFromCivil 1970 1 1 = 0 := by decide
  have hlast : daysFromCivil 9999 12 31 = 2932896 := by decide
  refine ⟨c, by omega, ?_, ?_⟩
  · by_contra hneg
    have hle := c.number_le_last_of_year
    have hlt : daysFromCivil c.year 12 31 < daysFromCivil 1970 1 1 :=
      daysFromCivil_lt_of_year_lt (by omega)
    omega
  · by_contra hneg
    have hle := c.first_of_year_le_number
    have hlt : daysFromCivil 9999 12 31 < daysFromCivil c.year 1 1 :=
      daysFromCivil_lt_of_year_lt (by omega)
    omega

/-- **The time stamp**: a second of the years up to 9999 is printed as the Gregorian date that is
reached by walking the calendar from 1970-01-01, with its time of day; a date and a time of day
are what is printed for their second; and the texts are in the order of the seconds. -/
theorem formatRfc3339_calendar :
    (∀ t : SystemTime, t.InRange → ∃ (c : Date) (hour minute second : ℕ),
      hour < 24 ∧ minute < 60 ∧ second < 60 ∧
      t.secs = c.number * 86400 + hour * 3600 + minute * 60 + second ∧
      c = Date.next^[(t.secs / 86400).toNat] Date.epoch ∧
      formatRfc3339 t = some (rfc3339 c hour minute second)) ∧
    (∀ (t : SystemTime) (c : Date) (hour minute second : ℕ), 1970 ≤ c.year → c.year ≤ 9999 →
      hour < 24 → minute < 60 → second < 60 →
      t.secs = c.number * 86400 + hour * 3600 + minute * 60 + second →
      formatRfc3339 t = some (rfc3339 c hour minute second)) ∧
    ∀ t u : SystemTime, t.InRange → u.InRange → ∀ a b, formatRfc3339 t = some a →
      formatRfc3339 u = some b → (a < b ↔ t.secs < u.secs) := by
  refine ⟨fun t ht => ?_, fun t c hour minute second hfrom hupto hh hm hs hsecs => ?_,
    fun t u ht hu a b ha hb => ?_⟩
  · obtain ⟨c, hday, hyear, -⟩ := exists_number ht
    obtain ⟨hfrom, -⟩ := ht
    obtain ⟨s, hs⟩ : ∃ s : ℕ, s = (t.secs % 86400).toNat := ⟨_, rfl⟩
    refine ⟨c, s / 3600, s % 3600 / 60, s % 60, by omega, by omega, by omega, by omega, ?_, ?_⟩
    · exact Date.eq_iterate_next (by omega)
    · rw [formatRfc3339_of_number hfrom hday, ← hs, dateTimeText_eq hyear, rfc3339]
      simp only [List.append_assoc, List.cons_append]
  · have hepoch : daysFromCivil 1970 1 1 = 0 := by decide
    have hnumber : 0 ≤ c.number := by
      rcases hfrom.eq_or_lt with h | h
      · exact hepoch ▸ h ▸ c.first_of_year_le_number
      · have hturn := daysFromCivil_lt_of_year_lt h
        have hle := c.first_of_year_le_number
        have hdecember : (0 : ℤ) ≤ daysFromCivil 1970 12 31 := by decide
        omega
    rw [formatRfc3339_of_number (c := c) (by omega) (by omega), dateTimeText_eq (by omega), rfc3339]
    have hhour : (t.secs % 86400).toNat / 3600 = hour := by omega
    have hminute : (t.secs % 86400).toNat % 3600 / 60 = minute := by omega
    have hsecond : (t.secs % 86400).toNat % 60 = second := by omega
    simp only [hhour, hminute, hsecond, List.append_assoc, List.cons_append]
  · obtain ⟨c, hday, hyear⟩ := exists_number ht
    obtain ⟨c', hday', hyear'⟩ := exists_number hu
    rw [formatRfc3339_of_number ht.1 hday, Option.some.injEq] at ha
    rw [formatRfc3339_of_number hu.1 hday', Option.some.injEq] at hb
    subst ha hb
    have horder := @dateTimeText_lt_iff c c' (t.secs % 86400).toNat (u.secs % 86400).toNat hyear
      hyear' (by omega) (by omega)
    rw [String.lt_iff_toList_lt, String.toList_ofList, String.toList_ofList, horder]
    omega

/-- The last second of February of the year 2000 and the second after it. -/
theorem formatRfc3339_leapDay :
    formatRfc3339 ⟨951868799, 500000000, by decide, by decide⟩ = some "2000-02-29T23:59:59Z" ∧
      (∃ (c : Date) (hour minute second : ℕ), hour < 24 ∧ minute < 60 ∧ second < 60 ∧
        951868799 = c.number * 86400 + hour * 3600 + minute * 60 + second ∧
        c = Date.next^[11016] Date.epoch ∧
        formatRfc3339 ⟨951868799, 500000000, by decide, by decide⟩ =
          some (rfc3339 c hour minute second)) ∧
      ("2000-02-29T23:59:59Z" < "2000-03-01T00:00:00Z" ↔ (951868799 : ℤ) < 951868800) := by
  have hlast : rfc3339 ⟨2000, 2, 29, by decide, by decide⟩ 23 59 59 = "2000-02-29T23:59:59Z" := by
    decide +kernel
  have hnext : rfc3339 ⟨2000, 3, 1, by decide, by decide⟩ 0 0 0 = "2000-03-01T00:00:00Z" := by
    decide +kernel
  have hbefore := formatRfc3339_calendar.2.1 ⟨951868799, 500000000, by decide, by decide⟩
    ⟨2000, 2, 29, by decide, by decide⟩ 23 59 59 (by decide) (by decide) (by decide) (by decide)
    (by decide) (by decide)
  have hafter := formatRfc3339_calendar.2.1 ⟨951868800, 0, by decide, by decide⟩
    ⟨2000, 3, 1, by decide, by decide⟩ 0 0 0 (by decide) (by decide) (by decide) (by decide)
    (by decide) (by decide)
  rw [hlast] at hbefore
  rw [hnext] at hafter
  have hrange : (SystemTime.mk 951868799 500000000 (by decide) (by decide)).InRange :=
    ⟨by decide, by decide⟩
  have hrange' : (SystemTime.mk 951868800 0 (by decide) (by decide)).InRange :=
    ⟨by decide, by decide⟩
  exact ⟨hbefore, formatRfc3339_calendar.1 _ hrange,
    formatRfc3339_calendar.2.2 _ _ hrange hrange' _ _ hbefore hafter⟩

end Sysknife.Brain
