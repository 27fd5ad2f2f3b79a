import NedoCron.CronTask

namespace NedoCron

/-!
# nedo_cron — finding due runs (`nedo_cron.c`)

One scheduling pass of the worker: what a clock reading means after the last minute that was
accounted for, whether a schedule matches a minute, and the runs it adds to the queue of each
task.  The static `lastMinute` of the sources is passed in and out.
-/

/-! ### The last day of the month -/

/-- `is_leap_year`. -/
def isLeapYear (year : Int) : Bool :=
  if year.tmod 400 = 0 then true
  else if year.tmod 100 = 0 then false
  else year.tmod 4 = 0

/-- The table of `days_in_month`, with a dummy entry for month 0. -/
def days : List Int := [0, 31, 28, 31, 30, 31, 30, 31, 31, 30, 31, 30, 31]

/-- `days_in_month`. -/
def daysInMonth (year month : Int) : Int :=
  if month < 1 ∨ month > 12 then 0
  else if month = 2 ∧ isLeapYear year = true then 29
  else days.getD month.toNat 0

/-- `isLastDayOfMonth`. -/
def isLastDayOfMonth (currentDom currentMonth currentYear : Int) : Bool :=
  daysInMonth currentYear currentMonth == currentDom

/-! ### Matching a minute -/

/-- `ShouldRunTask`. -/
def shouldRunTask (schedule : CronSchedule) (currentTime : Int)
    (floatingHourOrMinute fixedHourOrMinute : Bool) : Bool :=
  let tm := gmtime (timestamptzToTimeT currentTime)
  if schedule.seconds then false
  else
    let isLastDOM := isLastDayOfMonth tm.mday (tm.mon + 1) (tm.year + 1900)
    let dayOfMonthMatches :=
      getElem schedule.dayOfMonth tm.mday (by have := tm.mday_le; omega) ||
        (schedule.lastDom && isLastDOM)
    let dayOfWeekMatches := getElem schedule.dayOfWeek tm.wday tm.wday_lt
    let dayOfMonthAndDayOfWeek :=
      if schedule.domStar || schedule.dowStar then dayOfMonthMatches && dayOfWeekMatches
      else dayOfMonthMatches || dayOfWeekMatches
    if getElem schedule.minute tm.min tm.min_lt && getElem schedule.hour tm.hour tm.hour_lt &&
        getElem schedule.month (tm.mon + 1) (by have := tm.mon_lt; omega) &&
        dayOfMonthAndDayOfWeek then
      let isFloating := schedule.minStar || schedule.hourStar
      (fixedHourOrMinute && !isFloating) || (floatingHourOrMinute && isFloating)
    else false

/-! ### One task -/

/-- The loop `while (virtTime < currentMinute)` of `StartPendingTask`, which visits the
    minutes one after the other and counts those that are due. -/
def visitMinutes (due : Int → Bool) (currentMinute virtTime pendingRunCount : Int) : Int :=
  if virtTime < currentMinute then
    let virtTime' := timestampTzPlusMilliseconds virtTime (60 * 1000)
    visitMinutes due currentMinute virtTime'
      (if due virtTime' then pendingRunCount + 1 else pendingRunCount)
  else pendingRunCount
  termination_by (currentMinute - virtTime).toNat
  decreasing_by simp only [timestampTzPlusMilliseconds]; omega

/-- Queue one run if it is due. -/
def CronTask.enqueueIf (task : CronTask) (due : Bool) : CronTask :=
  if due then { task with pendingRunCount := task.pendingRunCount + 1 } else task

/-- The counter after one possible increment. -/
theorem pendingRunCount_enqueueIf (task : CronTask) (due : Bool) :
    (task.enqueueIf due).pendingRunCount = task.pendingRunCount + if due then 1 else 0 := by
  cases due
  · exact (Int.add_zero _).symm
  · rfl

/-- `StartPendingTask`. -/
def startPendingTask (schedule : CronSchedule) (clockStatus : ClockStatus)
    (lastMinute currentTime : Int) (task : CronTask) : CronTask :=
  let currentMinute := startOfMinute currentTime
  match clockStatus with
  | .progressed =>
    { task with
      pendingRunCount := visitMinutes (fun m => shouldRunTask schedule m true true)
        currentMinute lastMinute task.pendingRunCount }
  | .jumpForward =>
    let task :=
      { task with
        pendingRunCount := visitMinutes (fun m => shouldRunTask schedule m false true)
          currentMinute lastMinute task.pendingRunCount }
    task.enqueueIf (shouldRunTask schedule currentMinute true false)
  | .jumpBackward => task.enqueueIf (shouldRunTask schedule currentMinute true false)
  | .change => task.enqueueIf (shouldRunTask schedule currentMinute true true)

/-! ### One pass -/

/-- The choice of `clock_status` in `StartPendingTasks`. -/
def clockStatusOf (minutesPassed : Int) : ClockStatus :=
  if minutesPassed > 3 * 60 then .change
  else if minutesPassed > 5 then .jumpForward
  else if minutesPassed > 0 then .progressed
  else if minutesPassed > -3 * 60 then .jumpBackward
  else .change

/-- The body of the loop over the task list in `StartPendingTasks`. -/
def schedulePendingTask (jobs : Table Int CronJob) (lastMinute currentTime : Int)
    (task : CronTask) : CronTask :=
  let minutes := minutesPassed lastMinute currentTime
  match getCronJob jobs task.jobId with
  | none => task
  | some job =>
    if job.schedule.seconds then startSecondIntervalTask job.schedule currentTime task
    else if minutes ≠ 0 then
      startPendingTask job.schedule (clockStatusOf minutes) lastMinute currentTime task
    else task

/-- `StartPendingTasks` takes the time of the first pass for a `lastMinute` of 0. -/
def initLastMinute (lastMinute currentTime : Int) : Int :=
  if lastMinute = 0 then startOfMinute currentTime else lastMinute

/-- `StartPendingTasks`: the tasks after the pass, and the new `lastMinute`. -/
def startPendingTasks (jobs : Table Int CronJob) (lastMinute : Int) (tasks : Table Int CronTask)
    (currentTime : Int) : Table Int CronTask × Int :=
  let lastMinute := initLastMinute lastMinute currentTime
  let tasks := Table.mapEntries (fun _ => schedulePendingTask jobs lastMinute currentTime) tasks
  -- after a small jump back `lastMinute` waits for the clock to catch up
  if clockStatusOf (minutesPassed lastMinute currentTime) = .jumpBackward then (tasks, lastMinute)
  else (tasks, startOfMinute currentTime)

end NedoCron
