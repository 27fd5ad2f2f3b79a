import NedoCron.Lib.Calendar

namespace Calendar

/-!
# Dates that come back

How long one has to wait for a date of a given kind.

* `exists_monthDay` — a day of a month that the month has in some year comes back within 2921
  days, which is the time from one 29 February to the next around a century year that is none;
* `exists_weekday`, `exists_lastDay` — a day of the week within a month, and the last day of a
  month, come back sooner.
-/

/-- The length of month `m` in a leap year. -/
def longestMonth (m : ℕ) : ℕ :=
  if m = 2 then 29 else if m = 4 ∨ m = 6 ∨ m = 9 ∨ m = 11 then 30 else 31

/-- No month exceeds its longest form. -/
theorem monthLength_le_longestMonth (y : ℤ) (m : ℕ) : monthLength y m ≤ longestMonth m := by
  unfold monthLength longestMonth
  split_ifs <;> omega

/-- In a leap year each month has its longest form. -/
theorem monthLength_of_leap {y : ℤ} (h : Leap y) (m : ℕ) : monthLength y m = longestMonth m := by
  unfold monthLength longestMonth
  rw [if_pos h]

/-- Every month has at least 28 days. -/
theorem le_monthLength (y : ℤ) (m : ℕ) : 28 ≤ monthLength y m := by
  unfold monthLength
  split_ifs <;> omega

/-- The days before a month are the same in all leap years. -/
theorem daysBeforeMonth_of_leap {y z : ℤ} (hy : Leap y) (hz : Leap z) (m : ℕ) :
    daysBeforeMonth y m = daysBeforeMonth z m := by
  induction m with
  | zero => rfl
  | succ m ih =>
    cases m with
    | zero => rfl
    | succ m =>
      show daysBeforeMonth y (m + 1) + monthLength y (m + 1) =
        daysBeforeMonth z (m + 1) + monthLength z (m + 1)
      rw [ih, monthLength_of_leap hy, monthLength_of_leap hz]

/-- A date lies in its year. -/
theorem Date.dayNumber_bounds (d : Date) :
    daysBeforeYear d.year < d.dayNumber ∧ d.dayNumber ≤ daysBeforeYear (d.year + 1) := by
  have hle := d.dayOfYear_le
  have hpos := d.day_pos
  rw [daysBeforeYear_succ]
  unfold Date.dayNumber
  omega

/-- Every day lies in a year. -/
theorem exists_year (n : ℤ) : ∃ y, daysBeforeYear y < n ∧ n ≤ daysBeforeYear (y + 1) := by
  have h := (ofDayNumber n).dayNumber_bounds
  rw [dayNumber_ofDayNumber] at h
  exact ⟨_, h⟩

/-- Among eight years in a row there is a leap year. -/
theorem exists_leap (y : ℤ) : ∃ z, Leap z ∧ y ≤ z ∧ z ≤ y + 7 := by
  unfold Leap
  by_cases h : (y + 3) / 4 * 4 % 100 ≠ 0
  · exact ⟨(y + 3) / 4 * 4, by omega⟩
  · exact ⟨(y + 3) / 4 * 4 + 4, by omega⟩

/-- After a leap year the next one starts within 2921 days. -/
theorem exists_next_leap {y : ℤ} (h : Leap y) :
    ∃ z, Leap z ∧ y < z ∧ daysBeforeYear z ≤ daysBeforeYear y + 2921 := by
  unfold Leap daysBeforeYear at *
  by_cases hfour : (y + 4) % 100 ≠ 0 ∨ (y + 4) % 400 = 0
  · exact ⟨y + 4, by omega⟩
  · exact ⟨y + 8, by omega⟩

/-- **A day of a month** that the month has in some year. -/
theorem exists_monthDay (n : ℤ) {m k : ℕ} (hm : 1 ≤ m) (hm' : m ≤ 12) (hk : 1 ≤ k)
    (hk' : k ≤ longestMonth m) :
    ∃ d : Date, d.month = m ∧ d.day = k ∧ n < d.dayNumber ∧ d.dayNumber ≤ n + 2921 := by
  have hdate : ∀ z, Leap z → ∃ d : Date, d.year = z ∧ d.month = m ∧ d.day = k := fun z hz =>
    ⟨{ year := z, month := m, day := k, month_pos := hm, month_le := hm', day_pos := hk,
       day_le := by rw [monthLength_of_leap hz]; exact hk' }, rfl, rfl, rfl⟩
  obtain ⟨y, hlow, hhigh⟩ := exists_year n
  obtain ⟨z, hz, hyz, hzy⟩ := exists_leap y
  obtain ⟨d, hyear, hmonth, hday⟩ := hdate z hz
  obtain ⟨hlow', hhigh'⟩ := d.dayNumber_bounds
  by_cases hlater : n < d.dayNumber
  · refine ⟨d, hmonth, hday, hlater, ?_⟩
    have hyears : daysBeforeYear (y + 8) ≤ daysBeforeYear y + 2922 := by
      unfold daysBeforeYear
      omega
    have hmono : daysBeforeYear (d.year + 1) ≤ daysBeforeYear (y + 8) :=
      daysBeforeYear_mono (by omega)
    omega
  · -- the date has just passed, in a leap year
    obtain rfl : z = y := by
      by_contra hne
      have hmono : daysBeforeYear (y + 1) ≤ daysBeforeYear d.year := daysBeforeYear_mono (by omega)
      omega
    obtain ⟨z', hz', hlt, hgap⟩ := exists_next_leap hz
    obtain ⟨d', hyear', hmonth', hday'⟩ := hdate z' hz'
    refine ⟨d', hmonth', hday', ?_, ?_⟩
    · have hmono : daysBeforeYear (z + 1) ≤ daysBeforeYear d'.year :=
        daysBeforeYear_mono (by omega)
      have := d'.dayNumber_bounds
      omega
    · have hsame := daysBeforeMonth_of_leap hz hz' m
      unfold Date.dayNumber at *
      rw [hyear, hmonth, hday] at hlater
      rw [hyear', hmonth', hday']
      omega

/-- A date of the year after the day lies at most two years ahead. -/
theorem Date.dayNumber_nextYear {n y : ℤ} (hlow : daysBeforeYear y < n)
    (hhigh : n ≤ daysBeforeYear (y + 1)) {d : Date} (hyear : d.year = y + 1) :
    n < d.dayNumber ∧ d.dayNumber ≤ n + 2921 := by
  have h := d.dayNumber_bounds
  rw [hyear] at h
  have hyears : daysBeforeYear (y + 1 + 1) ≤ daysBeforeYear y + 731 := by
    unfold daysBeforeYear
    omega
  omega

/-- **A day of the week** within a month. -/
theorem exists_weekday (n : ℤ) {m w : ℕ} (hm : 1 ≤ m) (hm' : m ≤ 12) (hw : w < 7) :
    ∃ d : Date, d.month = m ∧ d.weekday = w ∧ n < d.dayNumber ∧ d.dayNumber ≤ n + 2921 := by
  obtain ⟨y, hlow, hhigh⟩ := exists_year n
  have hlength := le_monthLength (y + 1) m
  -- the first days of the month run through the whole week
  let first := daysBeforeYear (y + 1) + daysBeforeMonth (y + 1) m + 1
  let d : Date :=
    { year := y + 1, month := m, day := 1 + ((w - first) % 7).toNat, month_pos := hm,
      month_le := hm', day_pos := by omega, day_le := by omega }
  have hnumber : d.dayNumber = first + (w - first) % 7 := by
    show daysBeforeYear (y + 1) + daysBeforeMonth (y + 1) m +
      ((1 + ((w - first) % 7).toNat : ℕ) : ℤ) = first + (w - first) % 7
    omega
  obtain ⟨hafter, hbefore⟩ := Date.dayNumber_nextYear hlow hhigh (d := d) rfl
  refine ⟨d, rfl, ?_, hafter, hbefore⟩
  unfold Date.weekday
  rw [hnumber]
  omega

/-- **The last day** of a month. -/
theorem exists_lastDay (n : ℤ) {m : ℕ} (hm : 1 ≤ m) (hm' : m ≤ 12) :
    ∃ d : Date, d.month = m ∧ d.next.month ≠ d.month ∧ n < d.dayNumber ∧
      d.dayNumber ≤ n + 2921 := by
  obtain ⟨y, hlow, hhigh⟩ := exists_year n
  let d : Date :=
    { year := y + 1, month := m, day := monthLength (y + 1) m, month_pos := hm,
      month_le := hm', day_pos := monthLength_pos _ _, day_le := le_refl _ }
  obtain ⟨hafter, hbefore⟩ := Date.dayNumber_nextYear hlow hhigh (d := d) rfl
  exact ⟨d, rfl, d.next_month_ne_iff.mpr rfl, hafter, hbefore⟩

end Calendar
