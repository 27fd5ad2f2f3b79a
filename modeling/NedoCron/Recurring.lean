import NedoCron.Canonical
import NedoCron.Firing
import NedoCron.Lib.Recurrence

namespace NedoCron

/-!
# nedo_cron — schedules that come due again

Some schedules are accepted and never fire: `0 0 30 2 *` asks for a day no February has.
`CronSchedule.Dead` says which they are, and every other schedule comes due again and again,
after less than eight years: `29 2` is the slowest.

* `exists_matchingDay` — a day on which the day fields and the month match;
* `recurring` — a parsed schedule is dead, or it fires within 2922 days of every moment.
-/

/-- The day of the week does not matter, the last day of the month is not asked for, and none of
    the months ever has one of the days. -/
def CronSchedule.Dead (s : CronSchedule) : Prop :=
  s.dowStar = true ∧ s.lastDom = false ∧
    ∀ m d, s.bit .m m = true → s.bit .dom d = true → Calendar.longestMonth m < d

/-- The month and the day of a date match. -/
def CronSchedule.dayMatches (s : CronSchedule) (date : Calendar.Date) : Bool :=
  s.bit .m date.month &&
    (let dom := s.bit .dom date.day ||
      (s.lastDom && isLastDayOfMonth date.day date.month date.year)
    let dow := s.bit .dow date.weekday
    if s.domStar || s.dowStar then dom && dow else dom || dow)

/-- The bits of the date and those of the time of day. -/
theorem bitsMatch_eq (s : CronSchedule) (c : Calendar.DateTime) :
    bitsMatch s c = (s.bit .minute c.minute && s.bit .hour c.hour && s.dayMatches c.date) := by
  rw [bitsMatch, CronSchedule.dayMatches, ← Bool.and_assoc]

/-- Microseconds in a day. -/
def day : Int := 86400000000

/-! ### Days -/

/-- **A dead schedule** matches no day. -/
theorem CronSchedule.Dead.dayMatches {s : CronSchedule} (h : s.Dead) (date : Calendar.Date) :
    s.dayMatches date = false := by
  obtain ⟨hstar, hlast, hdays⟩ := h
  rw [Bool.eq_false_iff]
  intro hmatch
  simp only [CronSchedule.dayMatches, hstar, hlast, Bool.or_true, if_true, Bool.false_and,
    Bool.or_false, Bool.and_eq_true] at hmatch
  obtain ⟨hmonth, hday, -⟩ := hmatch
  have hlong := hdays date.month date.day hmonth hday
  have hle := date.day_le
  have := Calendar.monthLength_le_longestMonth date.year date.month
  omega

/-- A field with its star has all its bits. -/
theorem CronSchedule.HasFields.bit_of_star {s : CronSchedule} (hs : s.HasFields) {type : FieldType}
    (hstar : s.starFlag type = true) {n : Nat} (hin : inBounds type n = true)
    (hfold : foldValue type n = n) : s.bit type n = true :=
  hs.star type hstar n (mem_storedValues.mpr ⟨hin, hfold⟩)

/-- A field that is not the day of the month has a bit, within its bounds. -/
theorem CronSchedule.HasFields.exists_bit {s : CronSchedule} (hs : s.HasFields) {type : FieldType}
    (htype : type ≠ .dom) :
    ∃ n : Nat, s.bit type n = true ∧ inBounds type n = true ∧ foldValue type n = n := by
  rcases hs.nonempty type with ⟨n, hn⟩ | ⟨hdom, -⟩
  · exact ⟨n, hn, mem_storedValues.mp (hs.stored type n hn)⟩
  · exact absurd hdom htype

/-- **A matching day** comes within 2921 days, unless the schedule is dead. -/
theorem exists_matchingDay {s : CronSchedule} (hs : s.HasFields) (hlive : ¬s.Dead) (n : ℤ) :
    ∃ d : Calendar.Date, n < d.dayNumber ∧ d.dayNumber ≤ n + 2921 ∧ s.dayMatches d = true := by
  obtain ⟨m, hm, hmin, -⟩ := hs.exists_bit (show FieldType.m ≠ .dom by decide)
  obtain ⟨hmlow, hmhigh⟩ : (1 : ℤ) ≤ m ∧ (m : ℤ) ≤ 12 := inBounds_eq_true.mp hmin
  by_cases hweek : s.dowStar = false ∨ s.domStar = true
  · -- a day of the week is enough
    obtain ⟨w, hw, hwin, hwfold⟩ := hs.exists_bit (show FieldType.dow ≠ .dom by decide)
    have hw7 : w < 7 := by
      obtain ⟨-, hle⟩ : (0 : ℤ) ≤ w ∧ (w : ℤ) ≤ 7 := inBounds_eq_true.mp hwin
      by_contra hge
      rw [foldValue, if_pos ⟨rfl, by omega⟩] at hwfold
      omega
    obtain ⟨d, hmonth, hweekday, hafter, hbefore⟩ :=
      Calendar.exists_weekday n (m := m) (by omega) (by omega) hw7
    refine ⟨d, hafter, hbefore, ?_⟩
    have hdow : s.bit .dow d.weekday = true := by rw [hweekday]; exact hw
    have hdom : s.domStar = true → s.bit .dom d.day = true := by
      intro hstar
      have hle := Calendar.monthLength_le d.year d.month
      have hday := d.day_le
      have hpos := d.day_pos
      have hflag : s.starFlag .dom = true := hstar
      refine hs.bit_of_star hflag (inBounds_eq_true.mpr ?_) rfl
      show (1 : ℤ) ≤ d.day ∧ (d.day : ℤ) ≤ 31
      omega
    rw [CronSchedule.dayMatches, hmonth, hm]
    rcases hweek with hstar | hstar
    · cases hdomStar : s.domStar with
      | true => simp [hdom hdomStar, hdow]
      | false => simp [hstar, hdow]
    · simp [hstar, hdom hstar, hdow]
  · -- every day of the week matches, and the day of the month decides
    obtain ⟨hstar, -⟩ : s.dowStar = true ∧ s.domStar = false := by simpa using hweek
    have hdow : ∀ d : Calendar.Date, s.bit .dow d.weekday = true := by
      intro d
      have hlt : d.weekday < 7 := by
        unfold Calendar.Date.weekday
        omega
      have hflag : s.starFlag .dow = true := hstar
      refine hs.bit_of_star hflag (inBounds_eq_true.mpr ?_) ?_
      · show (0 : ℤ) ≤ d.weekday ∧ (d.weekday : ℤ) ≤ 7
        omega
      · rw [foldValue, if_neg (by omega)]
    by_cases hlast : s.lastDom = true
    · obtain ⟨d, hmonth, hnext, hafter, hbefore⟩ :=
        Calendar.exists_lastDay n (m := m) (by omega) (by omega)
      refine ⟨d, hafter, hbefore, ?_⟩
      have hlastDay := (isLastDayOfMonth_iff d).mpr hnext
      rw [CronSchedule.dayMatches, hlastDay, hdow d, hmonth, hm]
      simp [hstar, hlast]
    · have hdays : ∃ m d, s.bit .m m = true ∧ s.bit .dom d = true ∧
          d ≤ Calendar.longestMonth m := by
        by_contra hnone
        refine hlive ⟨hstar, by simpa using hlast, fun m d hm hd => ?_⟩
        by_contra hle
        exact hnone ⟨m, d, hm, hd, by omega⟩
      obtain ⟨m, k, hm, hk, hle⟩ := hdays
      obtain ⟨hmlow, hmhigh⟩ : (1 : ℤ) ≤ m ∧ (m : ℤ) ≤ 12 :=
        inBounds_eq_true.mp (mem_storedValues.mp (hs.stored .m m hm)).1
      obtain ⟨hklow, -⟩ : (1 : ℤ) ≤ k ∧ (k : ℤ) ≤ 31 :=
        inBounds_eq_true.mp (mem_storedValues.mp (hs.stored .dom k hk)).1
      obtain ⟨d, hmonth, hday, hafter, hbefore⟩ :=
        Calendar.exists_monthDay n (m := m) (k := k) (by omega) (by omega) (by omega) hle
      refine ⟨d, hafter, hbefore, ?_⟩
      rw [CronSchedule.dayMatches, hdow d, hmonth, hm, hday, hk]
      simp [hstar]

/-! ### Moments -/

/-- The timestamp of a date and time. -/
def timestampOf (c : Calendar.DateTime) : Int := (c.toUnix - postgresEpoch) * 1000000

/-- `ShouldRunTask` at a minute of the calendar. -/
theorem shouldRunTask_timestampOf {schedule : CronSchedule} (hseconds : schedule.seconds = false)
    (c : Calendar.DateTime) :
    shouldRunTask schedule (timestampOf c) true true = bitsMatch schedule c := by
  have hunix : unixSeconds (timestampOf c) = c.toUnix := by
    unfold unixSeconds timestampOf
    omega
  have htime : timestamptzToTimeT (timestampOf c) = unixSeconds (timestampOf c) :=
    timestamptzToTimeT_eq (Or.inr (by unfold timestampOf; omega))
  rw [shouldRunTask_eq hseconds (c := c) (by rw [htime, hunix])]
  cases schedule.isFloating <;> simp

/-- **A dead schedule** never fires. -/
theorem CronSchedule.Dead.not_fires {schedule : CronSchedule} (hdead : schedule.Dead)
    (hfields : schedule.seconds = false) (t : Int) (floating fixed : Bool) :
    shouldRunTask schedule t floating fixed = false := by
  have hmatch : bitsMatch schedule (Calendar.ofUnix (timestamptzToTimeT t)) = false := by
    rw [bitsMatch_eq, hdead.dayMatches, Bool.and_false]
  rw [shouldRunTask_eq hfields (Calendar.toUnix_ofUnix _), hmatch, Bool.false_and]

/-- **A live schedule** fires within 2922 days of every moment. -/
theorem exists_firing {schedule : CronSchedule} (hs : schedule.HasFields) (hlive : ¬schedule.Dead)
    (t : Int) : ∃ t', t < t' ∧ t' < t + 2922 * day ∧ minute ∣ t' ∧
      shouldRunTask schedule t' true true = true := by
  obtain ⟨d, hafter, hbefore, hday⟩ :=
    exists_matchingDay hs hlive (unixSeconds t / 86400 + Calendar.unixEpoch)
  -- some minute and some hour is set
  obtain ⟨mi, hmi, hmiIn, -⟩ := hs.exists_bit (show FieldType.minute ≠ .dom by decide)
  obtain ⟨h, hh, hhIn, -⟩ := hs.exists_bit (show FieldType.hour ≠ .dom by decide)
  obtain ⟨-, hmiHigh⟩ : (0 : ℤ) ≤ mi ∧ (mi : ℤ) ≤ 59 := inBounds_eq_true.mp hmiIn
  obtain ⟨-, hhHigh⟩ : (0 : ℤ) ≤ h ∧ (h : ℤ) ≤ 23 := inBounds_eq_true.mp hhIn
  -- the firing on that day
  let c : Calendar.DateTime :=
    { date := d, hour := h, minute := mi, second := 0, hour_lt := by omega,
      minute_lt := by omega, second_lt := by decide }
  have hunix : c.toUnix = (d.dayNumber - Calendar.unixEpoch) * 86400 + h * 3600 + mi * 60 := by
    show (d.dayNumber - Calendar.unixEpoch) * 86400 + h * 3600 + mi * 60 + (0 : ℕ) = _
    omega
  refine ⟨timestampOf c, ?_, ?_, ?_, ?_⟩
  · unfold timestampOf unixSeconds at *
    omega
  · unfold timestampOf unixSeconds day at *
    omega
  · unfold timestampOf minute postgresEpoch Calendar.unixEpoch at *
    omega
  · rw [shouldRunTask_timestampOf hs.seconds, bitsMatch_eq]
    show (schedule.bit .minute mi && schedule.bit .hour h && schedule.dayMatches d) = true
    rw [hmi, hh, hday]
    rfl

/-- The fields of a schedule parsed from five fields. -/
theorem hasFields_of_parse {s : CString} {schedule : CronSchedule}
    (hparse : parse s = some schedule) (hfields : schedule.seconds = false) :
    schedule.HasFields := by
  rcases wellFormed_of_parse hparse with hs | ⟨n, -, -, rfl⟩
  · exact hs
  · exact absurd hfields (by simp)

/-- **Recurrence.**  A schedule parsed from five fields is dead and never fires, whatever the
    clock says; or it is not, and every moment is followed by a minute in which it fires, less
    than 2922 days later. -/
theorem recurring (s : CString) (schedule : CronSchedule) (hparse : parse s = some schedule)
    (hfields : schedule.seconds = false) :
    (schedule.Dead → ∀ t floating fixed, shouldRunTask schedule t floating fixed = false) ∧
      (¬schedule.Dead → ∀ t, ∃ t', t < t' ∧ t' < t + 2922 * day ∧ minute ∣ t' ∧
        shouldRunTask schedule t' true true = true) :=
  ⟨fun hdead => hdead.not_fires hfields,
    fun hlive => exists_firing (hasFields_of_parse hparse hfields) hlive⟩

/-- The theorem at the slowest schedule. -/
theorem recurring_leapDay :
    ∃ schedule, parse (ascii "0 0 29 2 *") = some schedule ∧
      ∀ t, ∃ t', t < t' ∧ t' < t + 2922 * day ∧ minute ∣ t' ∧
        shouldRunTask schedule t' true true = true := by
  have hbits : (parse (ascii "0 0 29 2 *")).any (fun schedule => !schedule.seconds &&
      schedule.bit .m 2 && schedule.bit .dom 29) = true := by decide +kernel
  obtain ⟨schedule, hparse, hbits⟩ := (Option.any_eq_true _ _).mp hbits
  simp only [Bool.and_eq_true, Bool.not_eq_true'] at hbits
  obtain ⟨⟨hseconds, hmonth⟩, hday⟩ := hbits
  refine ⟨schedule, hparse, (recurring _ _ hparse hseconds).2 fun hdead => ?_⟩
  exact absurd (hdead.2.2 2 29 hmonth hday) (by decide)

end NedoCron
