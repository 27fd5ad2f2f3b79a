import NedoCron.ParserSound
import NedoCron.Scheduler
import Mathlib.Tactic.IntervalCases

namespace NedoCron

/-!
# nedo_cron — at which minutes a schedule fires

`Due` is the firing rule on the civil calendar: the minute, the hour and the month are
selected, and the day rule combines the two day fields.  `ShouldRunTask` computes it through
`gmtime` and the month table of the sources, and its two flags split the due minutes into
floating and fixed ones.
-/

/-! ### The firing rule -/

/-- The day is selected, or `$` was given and the day after lies in another month. -/
def DomMatch {s : CString} (r : Reading s) (schedule : CronSchedule) (date : Calendar.Date) :
    Prop :=
  schedule.bit .dom date.day = true ∨
    (lastDomToken ∈ (r.field .dom).texts ∧ date.next.month ≠ date.month)

/-- The weekday is selected. -/
def DowMatch (schedule : CronSchedule) (date : Calendar.Date) : Prop :=
  schedule.bit .dow date.weekday = true

/-- Both day fields have to match when one of them is a star, otherwise one is enough. -/
def DayRule {s : CString} (r : Reading s) (schedule : CronSchedule) (date : Calendar.Date) :
    Prop :=
  if schedule.domStar = true ∨ schedule.dowStar = true then
    DomMatch r schedule date ∧ DowMatch schedule date
  else DomMatch r schedule date ∨ DowMatch schedule date

/-- The schedule is due at a civil date and time. -/
def Due {s : CString} (r : Reading s) (schedule : CronSchedule) (c : Calendar.DateTime) : Prop :=
  schedule.bit .minute c.minute = true ∧ schedule.bit .hour c.hour = true ∧
    schedule.bit .m c.date.month = true ∧ DayRule r schedule c.date

/-! ### The month table of the sources -/

/-- `is_leap_year` is the rule of the calendar. -/
theorem isLeapYear_iff (year : Int) : isLeapYear year = true ↔ Calendar.Leap year := by
  have htmod : ∀ n : Int, year.tmod n = 0 ↔ year % n = 0 := fun n =>
    ⟨fun h => Int.emod_eq_zero_of_dvd (Int.dvd_of_tmod_eq_zero h),
      fun h => Int.tmod_eq_zero_of_dvd (Int.dvd_of_emod_eq_zero h)⟩
  simp only [isLeapYear, Calendar.Leap, htmod]
  split
  · simp only [true_iff]; omega
  · split
    · simp only [Bool.false_eq_true, false_iff]; omega
    · simp only [decide_eq_true_eq]; omega

/-- **The month table** agrees with the calendar. -/
theorem daysInMonth_eq (year : Int) {month : Nat} (hpos : 1 ≤ month) (hle : month ≤ 12) :
    daysInMonth year month = Calendar.monthLength year month := by
  unfold daysInMonth Calendar.monthLength
  rw [if_neg (by omega)]
  by_cases hleap : Calendar.Leap year
  · have hyear := (isLeapYear_iff year).mpr hleap
    interval_cases month <;> simp [hyear, hleap, days]
  · have hyear : isLeapYear year = false := by
      simpa using fun h => hleap ((isLeapYear_iff year).mp h)
    interval_cases month <;> simp [hyear, hleap, days]

/-- The last day of a month is the one before a change of month. -/
theorem isLastDayOfMonth_iff (date : Calendar.Date) :
    isLastDayOfMonth date.day date.month date.year = true ↔ date.next.month ≠ date.month := by
  rw [date.next_month_ne_iff, isLastDayOfMonth, daysInMonth_eq date.year date.month_pos
    date.month_le, beq_iff_eq, Nat.cast_inj]
  exact eq_comm

/-! ### The firing rule computed -/

/-- The bits `ShouldRunTask` reads, before its two flags come in. -/
def bitsMatch (schedule : CronSchedule) (c : Calendar.DateTime) : Bool :=
  schedule.bit .minute c.minute && schedule.bit .hour c.hour && schedule.bit .m c.date.month &&
    (let dom := schedule.bit .dom c.date.day ||
      (schedule.lastDom && isLastDayOfMonth c.date.day c.date.month c.date.year)
    let dow := schedule.bit .dow c.date.weekday
    if schedule.domStar || schedule.dowStar then dom && dow else dom || dow)

/-- A minute is floating when its minute or its hour field is a star. -/
def CronSchedule.isFloating (schedule : CronSchedule) : Bool :=
  schedule.minStar || schedule.hourStar

/-- **`ShouldRunTask`**: the bits match, and the flag of the schedule's class is raised. -/
theorem shouldRunTask_eq {schedule : CronSchedule} (hseconds : schedule.seconds = false) {t : Int}
    {c : Calendar.DateTime} (hc : c.toUnix = timestamptzToTimeT t) (floating fixed : Bool) :
    shouldRunTask schedule t floating fixed =
      (bitsMatch schedule c &&
        ((fixed && !schedule.isFloating) || (floating && schedule.isFloating))) := by
  have htm : gmtime (timestamptzToTimeT t) = Tm.ofDateTime c := by
    rw [gmtime, ← hc, Calendar.ofUnix_toUnix]
  have hmonth : c.date.month - 1 + 1 = c.date.month := by
    have := c.date.month_pos
    omega
  have hyear : c.date.year - 1900 + 1900 = c.date.year := by omega
  have hread : ∀ {size i : Nat} (bits : Vector Bool size) (h : i < size),
      bits[i] = bits[i]?.getD false := fun bits h => by simp [h]
  simp only [shouldRunTask, htm, Tm.ofDateTime, hseconds, Bool.false_eq_true, if_false, hread,
    hmonth, hyear, bitsMatch, CronSchedule.bit, CronSchedule.isFloating]
  have hmonth' : ((c.date.month - 1 : Nat) : Int) + 1 = (c.date.month : Int) := by
    have := c.date.month_pos
    omega
  have hif : ∀ b x : Bool, (if b = true then x else false) = (b && x) := by decide
  rw [hmonth', hif]

/-- The bits match exactly when the schedule is due on the civil calendar. -/
theorem bitsMatch_iff_due {s : CString} (r : Reading s) {schedule : CronSchedule}
    (hlast : schedule.lastDom = true ↔ lastDomToken ∈ (r.field .dom).texts)
    (c : Calendar.DateTime) : bitsMatch schedule c = true ↔ Due r schedule c := by
  have hdom : (schedule.bit .dom c.date.day || (schedule.lastDom &&
      isLastDayOfMonth c.date.day c.date.month c.date.year)) = true ↔
      DomMatch r schedule c.date := by
    rw [Bool.or_eq_true, Bool.and_eq_true, hlast, isLastDayOfMonth_iff, DomMatch]
  have hdow : schedule.bit .dow c.date.weekday = true ↔ DowMatch schedule c.date := Iff.rfl
  have hrule : (if schedule.domStar || schedule.dowStar then
      (schedule.bit .dom c.date.day || (schedule.lastDom &&
        isLastDayOfMonth c.date.day c.date.month c.date.year)) &&
          schedule.bit .dow c.date.weekday
      else (schedule.bit .dom c.date.day || (schedule.lastDom &&
        isLastDayOfMonth c.date.day c.date.month c.date.year)) ||
          schedule.bit .dow c.date.weekday) = true ↔ DayRule r schedule c.date := by
    unfold DayRule
    by_cases hstar : schedule.domStar = true ∨ schedule.dowStar = true
    · rw [if_pos hstar, if_pos (by simpa using hstar), Bool.and_eq_true, hdom, hdow]
    · rw [if_neg hstar, if_neg (by simpa using hstar), Bool.or_eq_true, hdom, hdow]
  show (_ && _ && _ && _) = true ↔ _
  rw [Bool.and_eq_true, Bool.and_eq_true, Bool.and_eq_true, Due, and_assoc, and_assoc]
  exact and_congr_right fun _ => and_congr_right fun _ => and_congr_right fun _ => hrule

/-- **Firing semantics.**  A schedule parsed from five fields fires exactly at the civil dates
    and times at which it is due, and every due minute is either floating or fixed.
    `htime` is the assumption on `timestamptz_to_time_t`; `timestamptzToTimeT_eq` says where
    it holds. -/
theorem shouldRunTask_iff_due (s : CString) (r : Reading s) (error : Option CronParseError)
    (schedule : CronSchedule) (hparse : (parseWithError s error).1 = some schedule) (t : Int)
    (htime : timestamptzToTimeT t = unixSeconds t) (c : Calendar.DateTime)
    (hc : c.toUnix = unixSeconds t) :
    (shouldRunTask schedule t true true = true ↔ Due r schedule c) ∧
      ¬(shouldRunTask schedule t true false = true ∧
        shouldRunTask schedule t false true = true) ∧
      ((shouldRunTask schedule t true false = true ∨
        shouldRunTask schedule t false true = true) ↔
          shouldRunTask schedule t true true = true) := by
  obtain ⟨hseconds, hlast⟩ := r.parsed hparse
  have hcivil : c.toUnix = timestamptzToTimeT t := by rw [hc, htime]
  rw [← bitsMatch_iff_due r hlast c]
  simp only [shouldRunTask_eq hseconds hcivil]
  cases schedule.isFloating <;> simp

/-- 29 February 2000, 12:00:00. -/
def leapDayNoon : Calendar.DateTime where
  date :=
    { year := 2000, month := 2, day := 29, month_pos := by decide, month_le := by decide,
      day_pos := by decide, day_le := by decide }
  hour := 12
  minute := 0
  second := 0
  hour_lt := by decide
  minute_lt := by decide
  second_lt := by decide

/-- The theorem on the leap day of a century year, for a job of the last day of the month. -/
theorem shouldRunTask_iff_due_leapDay :
    ∃ (r : Reading (ascii "0 12 $ * 1")) (schedule : CronSchedule),
      (shouldRunTask schedule 5140800000000 true true = true ↔ Due r schedule leapDayNoon) ∧
      ¬(shouldRunTask schedule 5140800000000 true false = true ∧
        shouldRunTask schedule 5140800000000 false true = true) ∧
      ((shouldRunTask schedule 5140800000000 true false = true ∨
        shouldRunTask schedule 5140800000000 false true = true) ↔
          shouldRunTask schedule 5140800000000 true true = true) := by
  have haccepted : (parseWithError (ascii "0 12 $ * 1") none).1.isSome = true := by
    decide +kernel
  have hparse := (Option.some_get haccepted).symm
  have hsplit : strSplit (ascii "0 12 $ * 1") spaceDelimiter =
      [ascii "0", ascii "12", ascii "$", ascii "*", ascii "1"] := by decide
  obtain ⟨r, _⟩ := parseWithError_five hsplit hparse
  exact ⟨r, _, shouldRunTask_iff_due _ r none _ hparse 5140800000000
    (timestamptzToTimeT_eq (Or.inl (by decide))) leapDayNoon (by decide)⟩

end NedoCron
