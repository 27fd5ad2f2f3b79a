import NedoCron.Canonical
import NedoCron.Conservation
import NedoCron.MinuteAccounting
import NedoCron.SecondsPace

namespace NedoCron

/-!
# nedo_cron — runs and the calendar

From the text of a schedule to the rows of its runs.  Between two scheduling passes the worker may
be busy for some minutes; as long as these are at most five, every minute of the calendar that the
text asks for gives one run, whatever else the worker does in between.

* `Reading.dueMinutes` — the minutes of a stretch of time that a text asks for;
* `increments_prompt` — a pass queues the due minutes it moves past;
* `runs_followCalendar` — the runs of a job, and those that wait, are as many as its due minutes.
-/

/-! ### Due minutes -/

/-- The minutes after `a`, up to `b`, at which a text read as `r` is due. -/
def Reading.dueMinutes {s : CString} (r : Reading s) (schedule : CronSchedule) (a b : Int) :
    Set Int :=
  {m | (a < m ∧ m ≤ b) ∧ minute ∣ m ∧ Due r schedule (Calendar.ofUnix (unixSeconds m))}

/-- The worker's count of due minutes is that of the calendar. -/
theorem count_matches {s : CString} (r : Reading s) {schedule : CronSchedule}
    (h : r.Denotes schedule) (a b : Int) :
    Grid.count minute schedule.matches a b = (r.dueMinutes schedule a b).ncard := by
  rw [Grid.count_eq_ncard]
  congr 1
  ext m
  show (_ ∧ minute ∣ m ∧ _) ↔ (_ ∧ minute ∣ m ∧ _)
  refine and_congr_right fun _ => and_congr_right fun hm => ?_
  -- whole minutes are whole seconds
  have htime : timestamptzToTimeT m = unixSeconds m := by
    refine timestamptzToTimeT_eq (Or.inr ?_)
    unfold minute at hm
    omega
  have hc : (Calendar.ofUnix (unixSeconds m)).toUnix = timestamptzToTimeT m := by
    rw [htime, Calendar.toUnix_ofUnix]
  rw [← bitsMatch_iff_due r h.lastDom, CronSchedule.matches, shouldRunTask_eq h.seconds hc]
  cases schedule.isFloating <;> simp

/-! ### Passes -/

/-- A pass is at most five minutes past the last minute that was accounted for. -/
def World.Prompt (w : World) : Label → Prop
  | .startPending currentTime => (currentTime - w.lastMinute) / minute ≤ 5
  | _ => True

/-- Only a pass moves the last minute. -/
theorem lastMinute_step (w : World) {l : Label} (h : ∀ currentTime, l ≠ .startPending currentTime) :
    (w.step l).lastMinute = w.lastMinute := by
  cases l with
  | startPending currentTime => exact absurd rfl (h currentTime)
  | wait io =>
    show (w.waitForEvent io).lastMinute = w.lastMinute
    unfold World.waitForEvent
    dsimp only
    split <;> rfl
  | manage jobId currentTime gap io =>
    show (w.manage jobId currentTime gap io).lastMinute = w.lastMinute
    unfold World.manage
    split <;> rfl
  | _ => rfl

/-- The last minute after a pass. -/
theorem lastMinute_startPending (w : World) (currentTime : Int) :
    (w.startPending currentTime).lastMinute =
      Pass.next ⟨w.jobs, w.tasks, currentTime⟩ w.lastMinute := by
  unfold World.startPending Pass.next
  rfl

/-- What a pass adds for a job of five fields. -/
theorem increments_eq {w : World} (hlast : IsMinute w.lastMinute) {k : Int} {task : CronTask}
    (hlookup : w.tasks.lookup k = some task) (hkeyed : task.jobId = k) {job : CronJob}
    (hjob : getCronJob w.jobs k = some job) (hseconds : job.schedule.seconds = false)
    (currentTime : Int) :
    w.increments k (.startPending currentTime) =
      if minutesPassed w.lastMinute currentTime ≠ 0 then
        startPendingIncrements job.schedule
          (clockStatusOf (minutesPassed w.lastMinute currentTime)) w.lastMinute currentTime
      else 0 := by
  rw [World.increments, hlookup]
  dsimp only
  rw [initLastMinute_of_isMinute hlast, passIncrements, hkeyed, hjob]
  dsimp only
  rw [hseconds, if_neg Bool.false_ne_true]

/-- **A prompt pass** queues the due minutes it moves past. -/
theorem increments_prompt {w : World} (hlast : IsMinute w.lastMinute) {k : Int} {task : CronTask}
    (hlookup : w.tasks.lookup k = some task) (hkeyed : task.jobId = k) {job : CronJob}
    (hjob : getCronJob w.jobs k = some job) (hseconds : job.schedule.seconds = false)
    {currentTime : Int} (hprompt : w.Prompt (.startPending currentTime)) :
    w.lastMinute ≤ (w.startPending currentTime).lastMinute ∧
      IsMinute (w.startPending currentTime).lastMinute ∧
      w.increments k (.startPending currentTime) =
        Grid.count minute job.schedule.matches w.lastMinute
          (w.startPending currentTime).lastMinute := by
  -- a prompt pass is in the class of passes that miss no minute
  change (currentTime - w.lastMinute) / minute ≤ 5 at hprompt
  have htimely : Pass.Timely w.lastMinute ⟨w.jobs, w.tasks, currentTime⟩ := by
    show (currentTime - initLastMinute w.lastMinute currentTime) / minute ≤ 180
    rw [initLastMinute_of_isMinute hlast]
    omega
  have hnext : (w.startPending currentTime).lastMinute =
      max w.lastMinute (startOfMinute currentTime) :=
    (lastMinute_startPending w currentTime).trans (Pass.next_eq hlast htimely)
  have hminute := hlast.next htimely
  rw [← lastMinute_startPending] at hminute
  refine ⟨by rw [hnext]; exact le_max_left _ _, hminute, ?_⟩
  have hincrements := increments_eq hlast hlookup hkeyed hjob hseconds currentTime
  rw [hincrements, hnext]
  -- either the pass visits the minutes since the last one, or there is no new minute
  by_cases hprogress : w.lastMinute + minute ≤ currentTime
  · have hle : w.lastMinute ≤ currentTime := by unfold minute at hprogress; omega
    have hminutes := minutesPassed_timely hle (by omega)
    have hone : 1 ≤ (currentTime - w.lastMinute) / minute := by unfold minute at *; omega
    have hstatus : clockStatusOf ((currentTime - w.lastMinute) / minute) = .progressed := by
      rw [clockStatusOf, if_neg (by omega), if_neg (by omega), if_pos (by omega)]
    rw [hminutes, if_pos (by omega), hstatus, max_eq_right (le_startOfMinute hlast hle)]
    show visitMinutes job.schedule.matches (startOfMinute currentTime) w.lastMinute 0 = _
    rw [visitMinutes_eq _ (minute_dvd_startOfMinute currentTime) hlast.dvd, Int.zero_add]
  · rw [minutesPassed_eq_zero (by omega), if_neg (by simp),
      max_eq_left (startOfMinute_le hlast (by omega)), Grid.count_of_le (le_refl _)]
    rfl

/-! ### Texts and loaded schedules -/

/-- The schedule of a loaded job is that of its text. -/
def World.Parsed (w : World) : Prop :=
  ∀ k job, getCronJob w.jobs k = some job →
    ∃ error, (parseWithError job.scheduleText error).1 = some job.schedule

/-- A step keeps this: the jobs come from `LoadJobsList`. -/
theorem parsed_step {w : World} (h : w.Parsed) (l : Label) : (w.step l).Parsed := by
  intro k job hjob
  rcases jobs_step w l with hsame | ⟨source, currentTime, -, hloaded⟩
  · rw [hsame] at hjob
    exact h k job hjob
  · rw [hloaded] at hjob
    obtain ⟨row, -, -, htoJob⟩ := row_of_loadJobsList hjob
    obtain ⟨schedule, hparse, rfl⟩ := Option.map_eq_some_iff.mp htoJob
    exact ⟨_, hparse⟩

/-- So in every reachable state the schedules of the loaded jobs are results of the parser. -/
theorem parsed_run (statementTimeout : StatementTimeout) (history : History) (ls : List Label) :
    (Machine.run World.step (World.launch statementTimeout history) ls).Parsed := by
  refine Machine.run_induction (P := World.Parsed) (fun _ l h => parsed_step h l) ls
    fun k job hjob => ?_
  exact absurd hjob (by simp [World.launch, getCronJob])

/-! ### Runs -/

/-- The job is loaded with the schedule, and some pass has stored a minute not before `a`. -/
structure World.Scheduling (k : Int) (schedule : CronSchedule) (a : Int) (w : World) : Prop where
  accounted : w.Accounted
  loaded : ∃ job, getCronJob w.jobs k = some job ∧ job.schedule = schedule
  minute : IsMinute w.lastMinute
  after : a ≤ w.lastMinute

/-- The due minutes of a job that have neither been queued nor started. -/
noncomputable def World.balance (k : Int) (schedule : CronSchedule) (a : Int) (w : World) : Int :=
  Grid.count minute schedule.matches a w.lastMinute - (w.queue k + w.insertedFor k)

/-- **A step** keeps the job scheduled, and the balance but for what it cuts off. -/
theorem scheduling_step {k : Int} {schedule : CronSchedule} {a : Int} {w : World} {l : Label}
    (hseconds : schedule.seconds = false) (hprompt : w.Prompt l)
    (hkeeps : l.keepsSchedule k schedule) (h : w.Scheduling k schedule a) :
    (w.step l).Scheduling k schedule a ∧
      (w.step l).balance k schedule a = w.balance k schedule a + w.truncated k l := by
  obtain ⟨job, hjob, hschedule⟩ := h.loaded
  have hloaded : (getCronJob w.jobs k).isSome = true := by rw [hjob]; rfl
  have hloaded' := hkeeps.loaded h.loaded
  have hqueue := queue_step h.accounted hloaded l hkeeps.keepsLoaded
  by_cases hpass : ∃ currentTime, l = .startPending currentTime
  · obtain ⟨currentTime, rfl⟩ := hpass
    obtain ⟨task, hlookup⟩ := Option.isSome_iff_exists.mp (h.accounted.tracked k hloaded)
    have hkeyed := (h.accounted.ok.tasks k task hlookup).keyed
    subst hschedule
    obtain ⟨hle, hminute, hincrements⟩ :=
      increments_prompt h.minute hlookup hkeyed hjob hseconds hprompt
    change w.lastMinute ≤ (w.step (.startPending currentTime)).lastMinute at hle
    refine ⟨⟨h.accounted.step _, hloaded', hminute, le_trans h.after hle⟩, ?_⟩
    -- the minutes up to the new last minute are those up to the old one and those of the pass
    have hsplit := Grid.count_add (d := minute) (p := job.schedule.matches) h.after hle
    unfold World.balance
    change w.increments k (.startPending currentTime) = (Grid.count minute job.schedule.matches
      w.lastMinute (w.step (.startPending currentTime)).lastMinute : Int) at hincrements
    omega
  · have hother : ∀ currentTime, l ≠ .startPending currentTime := fun currentTime heq =>
      hpass ⟨currentTime, heq⟩
    have hlast := lastMinute_step w hother
    have hzero : w.increments k l = 0 := by
      cases l with
      | startPending currentTime => exact absurd rfl (hother currentTime)
      | _ => rfl
    refine ⟨⟨h.accounted.step _, hloaded', by rw [hlast]; exact h.minute,
      by rw [hlast]; exact h.after⟩, ?_⟩
    unfold World.balance
    rw [hlast]
    omega

/-- **Runs follow the calendar.**  Take any state a worker reaches after its first pass, and a job
    that is loaded with a text of five fields, read as `r`.  Over every further run whose reloads
    keep the schedule of the job and whose passes are prompt: the rows inserted for the job, and
    the change of its queue, and what was cut off the queue, are together as many as the minutes
    of the calendar that the text asks for between the two last minutes. -/
theorem runs_followCalendar (statementTimeout : StatementTimeout) (history : History)
    (ls ms : List Label) (k : Int) (job : CronJob) (r : Reading job.scheduleText) :
    let w := Machine.run World.step (World.launch statementTimeout history) ls
    let w' := Machine.run World.step w ms
    getCronJob w.jobs k = some job → IsMinute w.lastMinute →
    Machine.Guarded World.step (fun w l => w.Prompt l ∧ l.keepsSchedule k job.schedule) w ms →
      (w'.insertedFor k - w.insertedFor k) + (w'.queue k - w.queue k) +
          Machine.total World.step (World.truncated k) w ms =
        (r.dueMinutes job.schedule w.lastMinute w'.lastMinute).ncard := by
  intro w w' hjob hminute hguarded
  have haccounted : w.Accounted := Machine.run_induction (fun _ l h => h.step l) ls
    (accounted_launch statementTimeout history)
  obtain ⟨error, hparse⟩ := parsed_run statementTimeout history ls k job hjob
  have hdenotes := r.denotes hparse
  have hstart : w.Scheduling k job.schedule w.lastMinute :=
    ⟨haccounted, ⟨job, hjob, rfl⟩, hminute, le_refl _⟩
  have hbalance := Machine.balance (V := World.balance k job.schedule w.lastMinute)
    (fun _ l hl h => (scheduling_step hdenotes.seconds hl.1 hl.2 h).1)
    (fun _ l hl h => (scheduling_step hdenotes.seconds hl.1 hl.2 h).2) hguarded hstart
  change w'.balance k job.schedule w.lastMinute = w.balance k job.schedule w.lastMinute +
    Machine.total World.step (World.truncated k) w ms at hbalance
  rw [← count_matches r hdenotes]
  have hnone : Grid.count minute job.schedule.matches w.lastMinute w.lastMinute = 0 :=
    Grid.count_of_le (le_refl _)
  unfold World.balance at hbalance
  rw [hnone] at hbalance
  omega

/-- A job of every minute. -/
def minuteRow : JobRow :=
  { secondsRow (ascii "alice") (ascii "SELECT 1") with
    schedule := starsText .minute (ascii "*") }

/-- The job is loaded, and a first pass stores 00:01. -/
def minuteLoaded : List Label := [.reload (oneRow minuteRow) 0, .startPending 61000000]

/-- The first run is started, and a pass at 00:03:20 finds two more minutes due. -/
def minuteLater : List Label := [.manage 7 61500000 0 smoothReplies, .startPending 200000000]

/-- The theorem at a job of every minute. -/
theorem runs_followCalendar_everyMinute :
    let w := Machine.run World.step (World.launch defaultTimeout emptyHistory) minuteLoaded
    let w' := Machine.run World.step w minuteLater
    ∃ r : Reading minuteRow.schedule, ∃ job, getCronJob w.jobs 7 = some job ∧
      (w'.insertedFor 7 - w.insertedFor 7) + (w'.queue 7 - w.queue 7) +
          Machine.total World.step (World.truncated 7) w minuteLater =
        (r.dueMinutes job.schedule 60000000 180000000).ncard := by
  intro w w'
  have hwrites : Writes .minute (ascii "*") .star := rfl
  -- the reading of "* * * * *", and the job with its schedule
  let r : Reading minuteRow.schedule :=
    starsReading .minute (ascii "*") .star hwrites (by decide) (by decide)
  let job : CronJob :=
    { secondsJob (ascii "alice") (ascii "SELECT 1") with
      scheduleText := minuteRow.schedule
      schedule := (parse minuteRow.schedule).getD CronSchedule.zero }
  have hjob : getCronJob w.jobs 7 = some job := by decide +kernel
  have hlast : w.lastMinute = 60000000 := by decide +kernel
  have hlast' : w'.lastMinute = 180000000 := by decide +kernel
  have hmiddle : (w.step (.manage 7 61500000 0 smoothReplies)).lastMinute = w.lastMinute :=
    lastMinute_step w (by simp)
  have hprompt :
      (w.step (.manage 7 61500000 0 smoothReplies)).Prompt (.startPending 200000000) := by
    show (200000000 - _) / minute ≤ 5
    rw [hmiddle, hlast]
    decide
  have hruns := runs_followCalendar defaultTimeout emptyHistory minuteLoaded minuteLater 7 job r
    hjob (by rw [hlast]; exact ⟨by decide, by decide⟩)
    ⟨⟨trivial, trivial⟩, ⟨hprompt, trivial⟩, trivial⟩
  change _ = (((r.dueMinutes job.schedule w.lastMinute w'.lastMinute).ncard : Nat) : Int) at hruns
  rw [hlast, hlast'] at hruns
  exact ⟨r, job, hjob, hruns⟩

end NedoCron
