import Mathlib.Data.Int.Order.Basic
import Mathlib.Tactic.Linarith

namespace Calendar

/-!
# The proleptic Gregorian calendar

Dates with their validity as fields, the number of a day counted from 1 January of year 1,
and the day after a date.  `Date.dayNumber` and `ofDayNumber` are inverse to each other, the
day after a date has the next number, and a date changes its month exactly after the last
day of the month.  `DateTime` adds the time of day and the count of seconds since 1 January
1970.
-/

/-! ### Years and months -/

/-- The Gregorian leap-year rule. -/
def Leap (y : ℤ) : Prop := y % 4 = 0 ∧ (y % 100 ≠ 0 ∨ y % 400 = 0)

instance (y : ℤ) : Decidable (Leap y) := inferInstanceAs (Decidable (_ ∧ _))

/-- Number of days of month `m` (1 to 12) of year `y`. -/
def monthLength (y : ℤ) (m : ℕ) : ℕ :=
  if m = 2 then if Leap y then 29 else 28
  else if m = 4 ∨ m = 6 ∨ m = 9 ∨ m = 11 then 30
  else 31

/-- Number of days of year `y`. -/
def yearLength (y : ℤ) : ℕ := if Leap y then 366 else 365

/-- Days of year `y` before the first day of month `m`. -/
def daysBeforeMonth (y : ℤ) : ℕ → ℕ
  | 0 => 0
  | 1 => 0
  | m + 2 => daysBeforeMonth y (m + 1) + monthLength y (m + 1)

/-- Days from 1 January of year 1 to 1 January of year `y`. -/
def daysBeforeYear (y : ℤ) : ℤ := 365 * (y - 1) + (y - 1) / 4 - (y - 1) / 100 + (y - 1) / 400

/-- A month begins when the month before it is over. -/
theorem daysBeforeMonth_succ (y : ℤ) {m : ℕ} (hm : 1 ≤ m) :
    daysBeforeMonth y (m + 1) = daysBeforeMonth y m + monthLength y m := by
  obtain ⟨k, rfl⟩ : ∃ k, m = k + 1 := ⟨m - 1, by omega⟩
  rfl

/-- The twelve months make up the year. -/
theorem daysBeforeMonth_thirteen (y : ℤ) : daysBeforeMonth y 13 = yearLength y := by
  by_cases h : Leap y <;> simp [daysBeforeMonth, monthLength, yearLength, h]

theorem daysBeforeMonth_mono (y : ℤ) {m n : ℕ} (hm : 1 ≤ m) (h : m ≤ n) :
    daysBeforeMonth y m ≤ daysBeforeMonth y n := by
  induction n, h using Nat.le_induction with
  | base => exact le_refl _
  | succ n hn ih =>
    rw [daysBeforeMonth_succ y (by omega)]
    exact le_trans ih (Nat.le_add_right _ _)

/-- A year begins when the year before it is over. -/
theorem daysBeforeYear_succ (y : ℤ) :
    daysBeforeYear (y + 1) = daysBeforeYear y + yearLength y := by
  unfold daysBeforeYear yearLength
  by_cases h : Leap y
  · rw [if_pos h]
    unfold Leap at h
    push_cast
    omega
  · rw [if_neg h]
    unfold Leap at h
    push_cast
    omega

theorem daysBeforeYear_mono {y z : ℤ} (h : y ≤ z) : daysBeforeYear y ≤ daysBeforeYear z := by
  unfold daysBeforeYear
  omega

theorem monthLength_pos (y : ℤ) (m : ℕ) : 0 < monthLength y m := by
  unfold monthLength
  split_ifs <;> omega

theorem monthLength_le (y : ℤ) (m : ℕ) : monthLength y m ≤ 31 := by
  unfold monthLength
  split_ifs <;> omega

/-! ### Dates -/

/-- A date of the proleptic Gregorian calendar. -/
@[ext] structure Date where
  year : ℤ
  month : ℕ
  day : ℕ
  month_pos : 1 ≤ month
  month_le : month ≤ 12
  day_pos : 1 ≤ day
  day_le : day ≤ monthLength year month

namespace Date

/-- The number of the day; 1 January of year 1 is day 1. -/
def dayNumber (d : Date) : ℤ :=
  daysBeforeYear d.year + daysBeforeMonth d.year d.month + d.day

/-- Day of the week, Sunday being 0; day 1 was a Monday. -/
def weekday (d : Date) : ℕ := (d.dayNumber % 7).toNat

/-- Within its year a day comes after the months before it and not after the year's end. -/
theorem dayOfYear_le (d : Date) :
    daysBeforeMonth d.year d.month + d.day ≤ yearLength d.year := by
  have hmono := daysBeforeMonth_mono d.year (by omega : 1 ≤ d.month + 1)
    (by have := d.month_le; omega : d.month + 1 ≤ 13)
  rw [daysBeforeMonth_succ d.year d.month_pos, daysBeforeMonth_thirteen] at hmono
  have := d.day_le
  omega

/-- An earlier year has smaller day numbers. -/
theorem dayNumber_lt_of_year_lt {d e : Date} (h : d.year < e.year) :
    d.dayNumber < e.dayNumber := by
  have h1 := d.dayOfYear_le
  have h2 : daysBeforeYear (d.year + 1) ≤ daysBeforeYear e.year := daysBeforeYear_mono h
  rw [daysBeforeYear_succ] at h2
  have h3 := e.day_pos
  unfold dayNumber
  omega

/-- Within a year, an earlier month has smaller day numbers. -/
theorem dayNumber_lt_of_month_lt {d e : Date} (hy : d.year = e.year) (h : d.month < e.month) :
    d.dayNumber < e.dayNumber := by
  have h1 : daysBeforeMonth e.year (d.month + 1) ≤ daysBeforeMonth e.year e.month :=
    daysBeforeMonth_mono e.year (by omega) h
  rw [daysBeforeMonth_succ e.year d.month_pos] at h1
  have h2 := d.day_le
  have h3 := e.day_pos
  unfold dayNumber
  rw [hy] at h2 ⊢
  omega

/-- **A day number determines the date.** -/
theorem dayNumber_injective : Function.Injective dayNumber := by
  intro d e h
  have hy : d.year = e.year := by
    rcases lt_trichotomy d.year e.year with hlt | heq | hgt
    · exact absurd h (dayNumber_lt_of_year_lt hlt).ne
    · exact heq
    · exact absurd h (dayNumber_lt_of_year_lt hgt).ne'
  have hm : d.month = e.month := by
    rcases lt_trichotomy d.month e.month with hlt | heq | hgt
    · exact absurd h (dayNumber_lt_of_month_lt hy hlt).ne
    · exact heq
    · exact absurd h (dayNumber_lt_of_month_lt hy.symm hgt).ne'
  have hd : d.day = e.day := by
    unfold dayNumber at h
    rw [hy, hm] at h
    omega
  exact Date.ext hy hm hd

/-- The day after. -/
def next (d : Date) : Date :=
  if h : d.day < monthLength d.year d.month then
    { d with day := d.day + 1, day_pos := by omega, day_le := h }
  else if hm : d.month < 12 then
    { year := d.year, month := d.month + 1, day := 1, month_pos := by omega, month_le := hm,
      day_pos := le_refl 1, day_le := monthLength_pos _ _ }
  else
    { year := d.year + 1, month := 1, day := 1, month_pos := le_refl 1, month_le := by omega,
      day_pos := le_refl 1, day_le := monthLength_pos _ _ }

/-- The day after has the next number. -/
theorem dayNumber_next (d : Date) : d.next.dayNumber = d.dayNumber + 1 := by
  have hle := d.day_le
  unfold next
  split_ifs with h hm
  · simp only [dayNumber]
    push_cast
    omega
  · simp only [dayNumber, daysBeforeMonth_succ d.year d.month_pos]
    push_cast
    omega
  · have hlast : d.month = 12 := by have := d.month_le; omega
    have h13 := daysBeforeMonth_succ d.year d.month_pos
    rw [hlast, daysBeforeMonth_thirteen] at h13
    rw [hlast] at h hle
    have hjan : daysBeforeMonth (d.year + 1) 1 = 0 := rfl
    simp only [dayNumber, daysBeforeYear_succ, hjan, hlast]
    push_cast
    omega

/-- **End of month.** The day after lies in another month exactly after a month's last day. -/
theorem next_month_ne_iff (d : Date) :
    d.next.month ≠ d.month ↔ d.day = monthLength d.year d.month := by
  have hle := d.day_le
  have hpos := d.month_pos
  unfold next
  split_ifs with h hm
  · simp only [ne_eq, not_true_eq_false, false_iff]; omega
  · simp only; omega
  · simp only; omega

end Date

/-! ### From day numbers to dates -/

/-- Walk through the months from `m` on, `left` of them, until day `k` (from 0) is reached. -/
def splitMonth (y : ℤ) : (left m k : ℕ) → ℕ × ℕ
  | 0, m, k => (m, k + 1)
  | left + 1, m, k =>
    if k < monthLength y m then (m, k + 1) else splitMonth y left (m + 1) (k - monthLength y m)

/-- The month and the day found by the walk stand at the day of the year it started from. -/
theorem splitMonth_spec (y : ℤ) (left m k : ℕ) (hm : 1 ≤ m)
    (hk : daysBeforeMonth y m + k < daysBeforeMonth y (m + left + 1)) :
    m ≤ (splitMonth y left m k).1 ∧ (splitMonth y left m k).1 ≤ m + left ∧
      1 ≤ (splitMonth y left m k).2 ∧
      (splitMonth y left m k).2 ≤ monthLength y (splitMonth y left m k).1 ∧
      daysBeforeMonth y (splitMonth y left m k).1 + (splitMonth y left m k).2
        = daysBeforeMonth y m + k + 1 := by
  induction left generalizing m k with
  | zero =>
    rw [Nat.add_zero, daysBeforeMonth_succ y hm] at hk
    simp only [splitMonth]
    omega
  | succ left ih =>
    simp only [splitMonth]
    split_ifs with hlt
    · simp only; omega
    · have hsucc := daysBeforeMonth_succ y hm
      have hk' : daysBeforeMonth y (m + 1) + (k - monthLength y m)
          < daysBeforeMonth y (m + 1 + left + 1) := by
        rw [hsucc, show m + 1 + left + 1 = m + (left + 1) + 1 by omega]
        omega
      have h := ih (m + 1) (k - monthLength y m) (by omega) hk'
      omega

/-- The year, and the day of the year from 0, of the day `n` days after 1 January of year 1:
    first the 400-year cycle, then the century, the four years and the year in it. -/
def splitYear (n : ℤ) : ℤ × ℕ :=
  let r := n % 146097
  let c := min 3 (r / 36524)
  let r₁ := r - 36524 * c
  let q := r₁ / 1461
  let r₂ := r₁ - 1461 * q
  let a := min 3 (r₂ / 365)
  (400 * (n / 146097) + 100 * c + 4 * q + a + 1, (r₂ - 365 * a).toNat)

/-- The year and the day of the year that `splitYear` finds are those of the day. -/
theorem splitYear_spec (n : ℤ) :
    (splitYear n).2 < yearLength (splitYear n).1 ∧
      daysBeforeYear (splitYear n).1 + (splitYear n).2 = n := by
  have hr := Int.emod_nonneg n (by decide : (146097 : ℤ) ≠ 0)
  have hr' := Int.emod_lt_of_pos n (by decide : (0 : ℤ) < 146097)
  have hdiv := Int.mul_ediv_add_emod n 146097
  simp only [splitYear]
  generalize n / 146097 = e at *
  generalize n % 146097 = r at *
  have hc : 0 ≤ min 3 (r / 36524) ∧ min 3 (r / 36524) ≤ 3 ∧
      0 ≤ r - 36524 * min 3 (r / 36524) ∧
      (min 3 (r / 36524) < 3 → r - 36524 * min 3 (r / 36524) < 36524) ∧
      r - 36524 * min 3 (r / 36524) < 36525 := by omega
  generalize min 3 (r / 36524) = c at *
  generalize hr₁ : r - 36524 * c = r₁ at *
  have hq : 0 ≤ r₁ / 1461 ∧ r₁ / 1461 ≤ 24 ∧ 0 ≤ r₁ - 1461 * (r₁ / 1461) ∧
      r₁ - 1461 * (r₁ / 1461) < 1461 ∧
      (r₁ / 1461 = 24 → c < 3 → r₁ - 1461 * (r₁ / 1461) < 1460) := by omega
  generalize r₁ / 1461 = q at *
  generalize hr₂ : r₁ - 1461 * q = r₂ at *
  have ha : 0 ≤ min 3 (r₂ / 365) ∧ min 3 (r₂ / 365) ≤ 3 ∧ 0 ≤ r₂ - 365 * min 3 (r₂ / 365) ∧
      (min 3 (r₂ / 365) < 3 → r₂ - 365 * min 3 (r₂ / 365) < 365) ∧
      r₂ - 365 * min 3 (r₂ / 365) < 366 ∧
      (r₂ - 365 * min 3 (r₂ / 365) = 365 → r₂ = 1460) := by omega
  generalize min 3 (r₂ / 365) = a at *
  -- the year minus one, divided by 4, 100 and 400, and the leap-year tests on the year
  have h4 : (400 * e + 100 * c + 4 * q + a + 1 - 1) / 4 = 100 * e + 25 * c + q := by omega
  have h100 : (400 * e + 100 * c + 4 * q + a + 1 - 1) / 100 = 4 * e + c := by omega
  have h400 : (400 * e + 100 * c + 4 * q + a + 1 - 1) / 400 = e := by omega
  have hleap : Leap (400 * e + 100 * c + 4 * q + a + 1) ↔ a = 3 ∧ (q ≠ 24 ∨ c = 3) := by
    unfold Leap
    have l4 : (400 * e + 100 * c + 4 * q + a + 1) % 4 = (a + 1) % 4 := by omega
    have l100 : (400 * e + 100 * c + 4 * q + a + 1) % 100 = (4 * q + a + 1) % 100 := by omega
    have l400 : (400 * e + 100 * c + 4 * q + a + 1) % 400 = (100 * c + 4 * q + a + 1) % 400 := by
      omega
    rw [l4, l100, l400]
    omega
  unfold yearLength daysBeforeYear
  rw [h4, h100, h400]
  constructor
  · split_ifs with hl
    · omega
    · rw [hleap] at hl
      omega
  · omega

/-- The date with a given day number. -/
def ofDayNumber (n : ℤ) : Date :=
  let y := (splitYear (n - 1)).1
  let md := splitMonth y 11 1 (splitYear (n - 1)).2
  have h := splitMonth_spec y 11 1 (splitYear (n - 1)).2 (le_refl 1) (by
    rw [show 1 + 11 + 1 = 13 from rfl, daysBeforeMonth_thirteen]
    have := (splitYear_spec (n - 1)).1
    simpa [daysBeforeMonth] using this)
  { year := y, month := md.1, day := md.2, month_pos := h.1, month_le := h.2.1,
    day_pos := h.2.2.1, day_le := h.2.2.2.1 }

/-- **Every day number is the number of its date.** -/
theorem dayNumber_ofDayNumber (n : ℤ) : (ofDayNumber n).dayNumber = n := by
  have hy := splitYear_spec (n - 1)
  have h := (splitMonth_spec (splitYear (n - 1)).1 11 1 (splitYear (n - 1)).2 (le_refl 1) (by
    rw [show 1 + 11 + 1 = 13 from rfl, daysBeforeMonth_thirteen]
    simpa [daysBeforeMonth] using hy.1)).2.2.2.2
  simp only [Date.dayNumber, ofDayNumber]
  simp only [daysBeforeMonth] at h
  omega

/-- Every date is found again from its number. -/
theorem ofDayNumber_dayNumber (d : Date) : ofDayNumber d.dayNumber = d :=
  Date.dayNumber_injective (dayNumber_ofDayNumber d.dayNumber)

/-! ### Seconds since 1970 -/

/-- The day number of 1 January 1970. -/
def unixEpoch : ℤ := 719163

/-- A date and a time of day to the second. -/
@[ext] structure DateTime where
  date : Date
  hour : ℕ
  minute : ℕ
  second : ℕ
  hour_lt : hour < 24
  minute_lt : minute < 60
  second_lt : second < 60

/-- Seconds since 1 January 1970, 00:00:00. -/
def DateTime.toUnix (c : DateTime) : ℤ :=
  (c.date.dayNumber - unixEpoch) * 86400 + c.hour * 3600 + c.minute * 60 + c.second

/-- The date and time `n` seconds after (or before) 1 January 1970, 00:00:00. -/
def ofUnix (n : ℤ) : DateTime where
  date := ofDayNumber (n / 86400 + unixEpoch)
  hour := (n % 86400 / 3600).toNat
  minute := (n % 3600 / 60).toNat
  second := (n % 60).toNat
  hour_lt := by omega
  minute_lt := by omega
  second_lt := by omega

/-- Every second is found again from its date and its time of day. -/
theorem toUnix_ofUnix (n : ℤ) : (ofUnix n).toUnix = n := by
  simp only [DateTime.toUnix, ofUnix, dayNumber_ofDayNumber]
  omega

/-- **Civil time.** The seconds of a date and time lead back to it. -/
theorem ofUnix_toUnix (c : DateTime) : ofUnix c.toUnix = c := by
  have h1 := c.hour_lt
  have h2 := c.minute_lt
  have h3 := c.second_lt
  -- the parts of the time are found again
  have hday : c.toUnix / 86400 + unixEpoch = c.date.dayNumber := by
    unfold DateTime.toUnix
    omega
  have hh : (c.toUnix % 86400 / 3600).toNat = c.hour := by
    unfold DateTime.toUnix
    omega
  have hm : (c.toUnix % 3600 / 60).toNat = c.minute := by
    unfold DateTime.toUnix
    omega
  have hs : (c.toUnix % 60).toNat = c.second := by
    unfold DateTime.toUnix
    omega
  apply DateTime.ext
  · show ofDayNumber (c.toUnix / 86400 + unixEpoch) = c.date
    rw [hday, ofDayNumber_dayNumber]
  · exact hh
  · exact hm
  · exact hs

end Calendar
