import NedoCron.CalendarRuns
import NedoCron.Progress
import NedoCron.Recurring

namespace NedoCron

/-!
# nedo_cron — a job runs again and again

What a scheduler is for.  While the loop goes on, with passes at most five minutes apart, a live
schedule keeps putting runs into the queue of its job; and what is in the queue is started, as long
as the server answers and the waits have time.

* `calendar_round`, `seconds_round` — what one round does for a job that is due;
* `due_leads` — a job with a live schedule is due again;
* `runs_forever_iff` — a job that stays loaded runs again and again, exactly if its schedule is
  not dead.
-/

/-! ### The clock of the passes -/

/-- The passes begin after the epoch, are at most five minutes apart, and go on. -/
structure PassesGoOn (rounds : Nat → Round) : Prop where
  after : ∀ n, minute ≤ (rounds n).currentTime
  near : ∀ n, (rounds (n + 1)).currentTime ≤ (rounds n).currentTime + 5 * minute
  goes : ∀ T n, ∃ m, n ≤ m ∧ T ≤ (rounds m).currentTime

/-- The step is not a pass, so it leaves the last minute. -/
theorem lastMinute_around {r : Round} {l : Label} (h : r.Around l) (w : World) :
    (w.step l).lastMinute = w.lastMinute :=
  lastMinute_step w fun currentTime heq => by
    subst heq
    exact h

/-- The pass of a round moves the last minute, and nothing else does. -/
theorem lastMinute_round (w : World) (r : Round) :
    ∃ v : World, v.lastMinute = w.lastMinute ∧
      (w.round r).lastMinute =
        Pass.next ⟨v.jobs, v.tasks, r.currentTime⟩ w.lastMinute := by
  refine round_phases (P := fun v => v.lastMinute = w.lastMinute)
    (Q := fun v' => ∃ v : World, v.lastMinute = w.lastMinute ∧
      v'.lastMinute = Pass.next ⟨v.jobs, v.tasks, r.currentTime⟩ w.lastMinute)
    (fun v l hl hv => (lastMinute_around hl v).trans hv) (fun v hv => ?_)
    (fun v' l hl hv' => ?_) rfl
  · exact ⟨v, hv, by rw [lastMinute_startPending, hv]⟩
  · obtain ⟨v, hv, hlast⟩ := hv'
    exact ⟨v, hv, (lastMinute_around hl v').trans hlast⟩

/-- The stored minute after a prompt pass. -/
theorem Pass.next_prompt {p : Pass} {lastMinute : Int} (hlast : IsMinute lastMinute)
    (hprompt : (p.now - lastMinute) / minute ≤ 5) :
    p.next lastMinute = max lastMinute (startOfMinute p.now) := by
  refine Pass.next_eq hlast ?_
  show (p.now - initLastMinute lastMinute p.now) / minute ≤ 180
  rw [initLastMinute_of_isMinute hlast]
  omega

/-- The last minute after a prompt round. -/
theorem lastMinute_prompt {w : World} (hlast : IsMinute w.lastMinute) {r : Round}
    (hprompt : (r.currentTime - w.lastMinute) / minute ≤ 5) :
    (w.round r).lastMinute = max w.lastMinute (startOfMinute r.currentTime) := by
  obtain ⟨v, -, hnext⟩ := lastMinute_round w r
  rw [hnext]
  exact Pass.next_prompt hlast hprompt

/-- The last minute is one, and the last pass is not past it. -/
structure World.UpTo (w : World) (currentTime : Int) : Prop where
  isMinute : IsMinute w.lastMinute
  reached : startOfMinute currentTime ≤ w.lastMinute

/-- The next pass is prompt. -/
theorem World.UpTo.prompt {w : World} {rounds : Nat → Round} (hpasses : PassesGoOn rounds)
    {n : Nat} (h : w.UpTo (rounds n).currentTime) :
    ((rounds (n + 1)).currentTime - w.lastMinute) / minute ≤ 5 := by
  have hafter := hpasses.after n
  have hnear := hpasses.near n
  have hreached := h.reached
  unfold minute at hafter hnear ⊢
  obtain ⟨-, hbound⟩ := startOfMinute_bounds (show 0 ≤ (rounds n).currentTime by omega)
  unfold minute at hbound
  omega

/-- After each round the last minute is that of its reading. -/
theorem upTo_after (statementTimeout : StatementTimeout) (history : History)
    {rounds : Nat → Round} (hpasses : PassesGoOn rounds) (n : Nat) :
    ((World.launch statementTimeout history).after rounds (n + 1)).UpTo
      (rounds n).currentTime := by
  induction n with
  | zero =>
    obtain ⟨v, -, hnext⟩ := lastMinute_round (World.launch statementTimeout history) (rounds 0)
    obtain ⟨hfirst, hminute, -⟩ :=
      Pass.first (p := ⟨v.jobs, v.tasks, (rounds 0).currentTime⟩) (hpasses.after 0)
    have hlast := hnext.trans hfirst
    exact ⟨hlast ▸ hminute, le_of_eq hlast.symm⟩
  | succ n ih =>
    have hlast := lastMinute_prompt ih.isMinute (ih.prompt hpasses)
    have hstart := isMinute_startOfMinute (hpasses.after (n + 1))
    refine ⟨?_, ?_⟩
    · show IsMinute (((World.launch statementTimeout history).after rounds (n + 1)).round
        (rounds (n + 1))).lastMinute
      -- the pass moves the last minute on, or leaves it
      rw [hlast]
      rcases max_choice ((World.launch statementTimeout history).after rounds (n + 1)).lastMinute
        (startOfMinute (rounds (n + 1)).currentTime) with heq | heq
      · rw [heq]
        exact ih.isMinute
      · rw [heq]
        exact hstart
    · exact (le_max_right _ _).trans (le_of_eq hlast.symm)

/-! ### One round -/

/-- The source of a round keeps the schedule, so its steps do. -/
theorem keepsSchedule_around {r : Round} {k : Int} {schedule : CronSchedule}
    (hkeeps : (Label.reload r.source 0).keepsSchedule k schedule) {l : Label}
    (h : r.Around l) : l.keepsSchedule k schedule := by
  cases l with
  | reload source currentTime =>
    rw [show source = r.source from h]
    exact hkeeps
  | _ => trivial

theorem insertedFor_step (w : World) (l : Label) (k : Int) :
    w.insertedFor k ≤ (w.step l).insertedFor k :=
  insertedFor_reaches (Machine.Reaches.single w l) k

/-- The steps around the pass keep a job scheduled. -/
theorem scheduling_around {r : Round} {k : Int} {schedule : CronSchedule}
    (hseconds : schedule.seconds = false)
    (hkeeps : (Label.reload r.source 0).keepsSchedule k schedule) {w : World} {l : Label}
    (h : r.Around l) (hw : w.Scheduling k schedule 0) :
    (w.step l).Scheduling k schedule 0 := by
  refine (scheduling_step hseconds ?_ (keepsSchedule_around hkeeps h) hw).1
  cases l with
  | startPending currentTime => exact False.elim h
  | _ => trivial

/-- **Scheduling** goes on. -/
theorem scheduling_round {w : World} {r : Round} {k : Int}
    {schedule : CronSchedule} (hseconds : schedule.seconds = false)
    (hprompt : (r.currentTime - w.lastMinute) / minute ≤ 5)
    (hkeeps : (Label.reload r.source 0).keepsSchedule k schedule)
    (h : w.Scheduling k schedule 0) : (w.round r).Scheduling k schedule 0 := by
  refine round_phases
    (P := fun v => v.Scheduling k schedule 0 ∧ v.lastMinute = w.lastMinute)
    (Q := fun v => v.Scheduling k schedule 0)
    (fun v l hl hv => ⟨scheduling_around hseconds hkeeps hl hv.1,
      (lastMinute_around hl v).trans hv.2⟩) (fun v hv => ?_)
    (fun v l hl hv => scheduling_around hseconds hkeeps hl hv) ⟨h, rfl⟩
  refine (scheduling_step (l := .startPending r.currentTime) hseconds ?_ trivial hv.1).1
  show (r.currentTime - v.lastMinute) / minute ≤ 5
  rw [hv.2]
  exact hprompt

/-- The pass of a scheduled job, and its queue. -/
theorem queue_pass_eq {w : World} {k : Int} {schedule : CronSchedule}
    (hseconds : schedule.seconds = false) (h : w.Scheduling k schedule 0) {currentTime : Int}
    (hprompt : (currentTime - w.lastMinute) / minute ≤ 5) :
    (w.startPending currentTime).queue k + (w.startPending currentTime).insertedFor k =
      w.queue k + w.insertedFor k + Grid.count minute schedule.matches w.lastMinute
        (w.startPending currentTime).lastMinute := by
  obtain ⟨job, hjob, rfl⟩ := h.loaded
  have hloaded : (getCronJob w.jobs k).isSome = true := by rw [hjob]; rfl
  obtain ⟨task, hlookup⟩ := Option.isSome_iff_exists.mp (h.accounted.tracked k hloaded)
  obtain ⟨-, -, hincrements⟩ := increments_prompt h.minute hlookup
    (h.accounted.ok.tasks k task hlookup).keyed hjob hseconds
    (show w.Prompt (.startPending currentTime) from hprompt)
  have hqueue := queue_step h.accounted hloaded (.startPending currentTime) trivial
  have hnothing : w.truncated k (.startPending currentTime) = 0 := rfl
  rw [hincrements, hnothing, Int.sub_zero] at hqueue
  exact hqueue

/-- **A minute that comes due** puts a run into the queue, if none has been started since. -/
theorem calendar_round {w : World} {r : Round} {k c m : Int}
    {schedule : CronSchedule} (hseconds : schedule.seconds = false)
    (hprompt : (r.currentTime - w.lastMinute) / minute ≤ 5)
    (hkeeps : (Label.reload r.source 0).keepsSchedule k schedule)
    (h : w.Scheduling k schedule 0) (hsince : c ≤ w.insertedFor k) (hafter : w.lastMinute < m)
    (hreached : m ≤ startOfMinute r.currentTime) (hdvd : minute ∣ m)
    (hfires : schedule.matches m = true) : (w.round r).Queued k c := by
  refine round_phases
    (P := fun v => v.Scheduling k schedule 0 ∧ c ≤ v.insertedFor k ∧ v.lastMinute = w.lastMinute)
    (Q := fun v => v.Queued k c) (fun v l hl hv => ?_) (fun v hv => ?_)
    (fun v l hl hv => queued_step (keepsSchedule_around hkeeps hl).keepsLoaded hv)
    ⟨h, hsince, rfl⟩
  · obtain ⟨hscheduling, hsince, hlast⟩ := hv
    exact ⟨scheduling_around hseconds hkeeps hl hscheduling,
      hsince.trans (insertedFor_step v l k), (lastMinute_around hl v).trans hlast⟩
  · obtain ⟨hscheduling, hsince, hlast⟩ := hv
    rw [← hlast] at hprompt hafter
    -- the pass counts the minute `m`
    have hqueue := queue_pass_eq hseconds hscheduling hprompt
    have hnext : (v.startPending r.currentTime).lastMinute =
        max v.lastMinute (startOfMinute r.currentTime) := by
      rw [lastMinute_startPending]
      exact Pass.next_prompt hscheduling.minute hprompt
    have hone := Grid.count_pos (p := schedule.matches) hafter
      (hreached.trans ((le_max_right _ _).trans (le_of_eq hnext.symm))) hdvd hfires
    have hstays := insertedFor_step v (.startPending r.currentTime) k
    change v.insertedFor k ≤ (v.startPending r.currentTime).insertedFor k at hstays
    have hqueued := queue_nonneg hscheduling.accounted k
    have haccounted := hscheduling.accounted.step (.startPending r.currentTime)
    refine ⟨haccounted, ?_, hsince.trans hstays, by omega⟩
    obtain ⟨job, hjob, -⟩ := hscheduling.loaded
    exact loaded_step (l := .startPending r.currentTime) (by rw [hjob]; rfl) trivial

/-- **A dead schedule** puts nothing into the queue. -/
theorem dead_round {w : World} {r : Round} {k c : Int} {schedule : CronSchedule}
    (hseconds : schedule.seconds = false) (hdead : schedule.Dead)
    (hprompt : (r.currentTime - w.lastMinute) / minute ≤ 5)
    (hkeeps : (Label.reload r.source 0).keepsSchedule k schedule)
    (h : w.Scheduling k schedule 0) (hbound : w.queue k + w.insertedFor k ≤ c) :
    (w.round r).queue k + (w.round r).insertedFor k ≤ c := by
  have hloaded : ∀ {v : World}, v.Scheduling k schedule 0 →
      (getCronJob v.jobs k).isSome = true := by
    intro v hv
    obtain ⟨job, hjob, -⟩ := hv.loaded
    rw [hjob]
    rfl
  -- outside the pass nothing is added, so the sum cannot grow
  have haround : ∀ (v : World) (l : Label), r.Around l → v.Scheduling k schedule 0 →
      v.queue k + v.insertedFor k ≤ c → (v.step l).queue k + (v.step l).insertedFor k ≤ c := by
    intro v l hl hv hle
    have hqueue := queue_step hv.accounted (hloaded hv) l
      (keepsSchedule_around hkeeps hl).keepsLoaded
    have hzero : v.increments k l = 0 := by
      cases l with
      | startPending currentTime => exact False.elim hl
      | _ => rfl
    have htruncated := truncated_nonneg v k l
    omega
  refine (round_phases
    (P := fun v => v.Scheduling k schedule 0 ∧ v.lastMinute = w.lastMinute ∧
      v.queue k + v.insertedFor k ≤ c)
    (Q := fun v => v.Scheduling k schedule 0 ∧ v.queue k + v.insertedFor k ≤ c)
    (fun v l hl hv => ⟨scheduling_around hseconds hkeeps hl hv.1,
      (lastMinute_around hl v).trans hv.2.1, haround v l hl hv.1 hv.2.2⟩) (fun v hv => ?_)
    (fun v l hl hv => ⟨scheduling_around hseconds hkeeps hl hv.1, haround v l hl hv.1 hv.2⟩)
    ⟨h, rfl, hbound⟩).2
  obtain ⟨hscheduling, hlast, hle⟩ := hv
  rw [← hlast] at hprompt
  have hqueue := queue_pass_eq hseconds hscheduling hprompt
  -- and the pass finds no minute that is asked for
  have hnone : Grid.count minute schedule.matches v.lastMinute
      (v.startPending r.currentTime).lastMinute = 0 :=
    Grid.count_none (fun m => hdead.not_fires hseconds m true true) _ _
  refine ⟨(scheduling_step (l := .startPending r.currentTime) hseconds hprompt trivial
    hscheduling).1, ?_⟩
  omega

/-- **A seconds job** gets a run into its queue, or its timer is armed and not yet due. -/
theorem seconds_round {w : World} {r : Round} {k c : Int}
    {schedule : CronSchedule} {task : CronTask}
    (hkeeps : (Label.reload r.source 0).keepsSchedule k schedule)
    (h : w.Paces k schedule task) (hsince : c ≤ w.insertedFor k) :
    (w.round r).Queued k c ∨
      ((task.nextRunTime = 0 ∨ r.currentTime < task.nextRunTime) ∧
        ∃ task', (w.round r).Paces k schedule task' ∧
          task'.nextRunTime = (if task.nextRunTime = 0 then r.currentTime + schedule.interval
            else task.nextRunTime) ∧ c ≤ (w.round r).insertedFor k) := by
  have haround : ∀ (v : World) (l : Label) (t : CronTask) (next : Int), r.Around l →
      v.Paces k schedule t → t.nextRunTime = next →
      ∃ t', (v.step l).Paces k schedule t' ∧ t'.nextRunTime = next := by
    intro v l t next hl hv hnext
    obtain ⟨t', hv', ⟨now, rfl, -, -⟩ | ⟨-, -, hsame, -⟩⟩ :=
      hv.step (keepsSchedule_around hkeeps hl)
    · exact False.elim hl
    · exact ⟨t', hv', hsame.trans hnext⟩
  refine round_phases
    (P := fun v => (∃ t, v.Paces k schedule t ∧ t.nextRunTime = task.nextRunTime) ∧
      c ≤ v.insertedFor k)
    (Q := fun v => v.Queued k c ∨
      ((task.nextRunTime = 0 ∨ r.currentTime < task.nextRunTime) ∧
        ∃ t, v.Paces k schedule t ∧
          t.nextRunTime = (if task.nextRunTime = 0 then r.currentTime + schedule.interval
            else task.nextRunTime) ∧ c ≤ v.insertedFor k))
    (fun v l hl hv => ?_) (fun v hv => ?_) (fun v l hl hv => ?_) ⟨⟨task, h, rfl⟩, hsince⟩
  · obtain ⟨⟨t, ht, hnext⟩, hsince⟩ := hv
    exact ⟨haround v l t _ hl ht hnext, hsince.trans (insertedFor_step v l k)⟩
  · obtain ⟨⟨t, ht, hnext⟩, hsince⟩ := hv
    have hsince' := hsince.trans (insertedFor_step v (.startPending r.currentTime) k)
    obtain ⟨t', ht', ⟨now, hnow, rfl, hincrements⟩ | ⟨hpass, -⟩⟩ :=
      ht.step (l := .startPending r.currentTime) trivial
    · obtain rfl := Label.startPending.inj hnow
      by_cases hdue : t.nextRunTime ≠ 0 ∧ t.nextRunTime ≤ r.currentTime
      · -- the timer fires, and puts a run into the queue unless one is there
        left
        have hloaded : (getCronJob v.jobs k).isSome = true := by
          obtain ⟨job, hjob, -⟩ := ht.loaded
          rw [hjob]
          rfl
        refine ⟨ht'.accounted, loaded_step hloaded (.startPending r.currentTime) trivial,
          hsince', Or.inl ?_⟩
        have hpending := ht.accounted.nonneg k t ht.lookup
        have hfires : Ticker.due t.timer r.currentTime = true := by
          rw [CronTask.timer, if_neg hdue.1, Ticker.due, Option.any_some]
          exact decide_eq_true hdue.2
        have hmore := startSecondIntervalTask_pending schedule r.currentTime t
        rw [secondIntervalIncrements_eq schedule ht.interval, hfires] at hmore
        simp only [true_and] at hmore
        change 0 < (v.step (.startPending r.currentTime)).queue k
        rw [queue_of_lookup ht'.lookup, CronTask.queued]
        split at hmore <;> split <;> omega
      · right
        rw [← hnext]
        refine ⟨by omega, _, ht', ?_, hsince'⟩
        rw [nextRunTime_startSecondIntervalTask]
        by_cases hzero : t.nextRunTime = 0
        · rw [if_pos (Or.inl hzero), if_pos hzero]
        · rw [if_neg (by omega), if_neg hzero]
    · exact absurd hpass (by simp [Label.passTime])
  · rcases hv with hqueued | ⟨harmed, t, ht, hnext, hsince⟩
    · exact Or.inl (queued_step (keepsSchedule_around hkeeps hl).keepsLoaded hqueued)
    · obtain ⟨t', ht', hnext'⟩ := haround v l t _ hl ht hnext
      exact Or.inr ⟨harmed, t', ht', hnext', hsince.trans (insertedFor_step v l k)⟩

/-! ### Infinite runs -/

section Infinite

variable {statementTimeout : StatementTimeout} {history : History}
  {rounds : Nat → Round} {k : Int} {schedule : CronSchedule} {n : Nat}

/-- A job that every reload finds stays loaded. -/
theorem loaded_after
    (hkeeps : ∀ m, n ≤ m → (Label.reload (rounds m).source 0).keepsSchedule k schedule)
    (hloaded : ∃ job, getCronJob ((World.launch statementTimeout history).after rounds n).jobs k =
      some job ∧ job.schedule = schedule) :
    ∀ m, n ≤ m → ∃ job, getCronJob ((World.launch statementTimeout history).after rounds m).jobs k =
      some job ∧ job.schedule = schedule := by
  intro m hm
  induction hm with
  | refl => exact hloaded
  | @step m hm ih =>
    have hstep : ∀ (v : World) (l : Label), (rounds m).Around l →
        (∃ job, getCronJob v.jobs k = some job ∧ job.schedule = schedule) →
        ∃ job, getCronJob (v.step l).jobs k = some job ∧ job.schedule = schedule :=
      fun v l hl hv => (keepsSchedule_around (hkeeps m hm) hl).loaded hv
    exact round_phases
      (P := fun v => ∃ job, getCronJob v.jobs k = some job ∧ job.schedule = schedule) hstep
      (fun v hv =>
        Label.keepsSchedule.loaded (l := .startPending (rounds m).currentTime) trivial hv)
      hstep ih

/-- What is loaded comes from a text that was accepted. -/
theorem parsed_after {job : CronJob}
    (hjob : getCronJob ((World.launch statementTimeout history).after rounds n).jobs k =
      some job) : parse job.scheduleText = some job.schedule := by
  obtain ⟨ls, hls⟩ := after_run statementTimeout history rounds n
  rw [← hls] at hjob
  obtain ⟨error, hparse⟩ := parsed_run statementTimeout history ls k job hjob
  rwa [parseWithError_fst] at hparse

/-- A job that every reload finds stays scheduled. -/
theorem scheduling_after (hpasses : PassesGoOn rounds) (hseconds : schedule.seconds = false)
    (hkeeps : ∀ m, n + 1 ≤ m → (Label.reload (rounds m).source 0).keepsSchedule k schedule)
    (h : ((World.launch statementTimeout history).after rounds (n + 1)).Scheduling k schedule 0) :
    ∀ m, n ≤ m →
      ((World.launch statementTimeout history).after rounds (m + 1)).Scheduling k schedule 0 := by
  intro m hm
  induction hm with
  | refl => exact h
  | @step m hm ih =>
    exact scheduling_round hseconds
      ((upTo_after statementTimeout history hpasses m).prompt hpasses)
      (hkeeps (m + 1) (Nat.succ_le_succ hm)) ih

/-- **A live schedule of five fields** becomes due. -/
theorem calendar_due (hpasses : PassesGoOn rounds) (hfields : schedule.HasFields)
    (hlive : ¬schedule.Dead)
    (hkeeps : ∀ m, n + 1 ≤ m → (Label.reload (rounds m).source 0).keepsSchedule k schedule)
    (h : ((World.launch statementTimeout history).after rounds (n + 1)).Scheduling k schedule 0) :
    ∃ l, n + 1 ≤ l ∧ ((World.launch statementTimeout history).after rounds l).Queued k
      (((World.launch statementTimeout history).after rounds (n + 1)).insertedFor k) := by
  by_contra hnever
  obtain ⟨m, hafter, -, hdvd, hfires⟩ := exists_firing hfields hlive
    ((World.launch statementTimeout history).after rounds (n + 1)).lastMinute
  have hminute : IsMinute m := ⟨h.minute.le.trans (le_of_lt hafter), hdvd⟩
  -- the last minute never gets to the next firing, since the job would be queued there
  have hbehind : ∀ i, n ≤ i →
      ((World.launch statementTimeout history).after rounds (i + 1)).lastMinute < m := by
    intro i hi
    induction hi with
    | refl => exact hafter
    | @step i hi ih =>
      have hi₁ : n + 1 ≤ i + 1 := Nat.succ_le_succ hi
      have hupTo := upTo_after statementTimeout history hpasses i
      have hprompt := hupTo.prompt hpasses
      by_contra hreached
      change ¬(((World.launch statementTimeout history).after rounds (i + 1)).round
        (rounds (i + 1))).lastMinute < m at hreached
      rw [lastMinute_prompt hupTo.isMinute hprompt] at hreached
      have hstart : m ≤ startOfMinute (rounds (i + 1)).currentTime :=
        (le_max_iff.mp (not_lt.mp hreached)).resolve_left (not_le.mpr ih)
      exact hnever ⟨i + 2, Nat.le_succ_of_le hi₁, calendar_round hfields.seconds hprompt
        (hkeeps (i + 1) hi₁) (scheduling_after hpasses hfields.seconds hkeeps h i hi)
        (insertedFor_reaches (after_reaches _ rounds hi₁) k) ih hstart hdvd hfires⟩
  obtain ⟨i, hi, hlate⟩ := hpasses.goes m n
  have hreached := (upTo_after statementTimeout history hpasses i).reached
  exact absurd (hbehind i hi) (not_lt.mpr ((le_startOfMinute hminute hlate).trans hreached))

/-- **A schedule of seconds** becomes due. -/
theorem seconds_due {w : World} {task : CronTask} (hpasses : PassesGoOn rounds)
    (hkeeps : ∀ m, n ≤ m → (Label.reload (rounds m).source 0).keepsSchedule k schedule)
    (h : (w.after rounds n).Paces k schedule task) :
    ∃ l, n ≤ l ∧ (w.after rounds l).Queued k ((w.after rounds n).insertedFor k) := by
  by_contra hnever
  have hnot : ∀ l, n ≤ l →
      ¬(w.after rounds l).Queued k ((w.after rounds n).insertedFor k) :=
    fun l hl hqueued => hnever ⟨l, hl, hqueued⟩
  -- the first pass arms the timer
  obtain ⟨-, task₁, htask₁, hnext₁, hsince₁⟩ :=
    (seconds_round (hkeeps n (le_refl n)) h (le_refl _)).resolve_left
      (hnot (n + 1) (Nat.le_succ n))
  have harmed : task₁.nextRunTime ≠ 0 := by
    have hpos := hpasses.after n
    have hinterval := h.interval
    unfold minute at hpos
    rw [hnext₁]
    split <;> omega
  -- and it stays armed for the same time
  have hwaits : ∀ m, n + 1 ≤ m → ∃ t, (w.after rounds m).Paces k schedule t ∧
      t.nextRunTime = task₁.nextRunTime ∧
      (w.after rounds n).insertedFor k ≤ (w.after rounds m).insertedFor k := by
    intro m hm
    induction hm with
    | refl => exact ⟨task₁, htask₁, rfl, hsince₁⟩
    | @step m hm ih =>
      obtain ⟨t, ht, hnext, hsince⟩ := ih
      have hm₁ : n ≤ m := Nat.le_of_succ_le hm
      obtain ⟨-, t', ht', hnext', hsince'⟩ :=
        (seconds_round (hkeeps m hm₁) ht hsince).resolve_left
          (hnot (m + 1) (Nat.le_succ_of_le hm₁))
      rw [hnext, if_neg harmed] at hnext'
      exact ⟨t', ht', hnext', hsince'⟩
  obtain ⟨m, hm, hlate⟩ := hpasses.goes task₁.nextRunTime (n + 1)
  obtain ⟨t, ht, hnext, hsince⟩ := hwaits m hm
  have hm₁ : n ≤ m := Nat.le_of_succ_le hm
  obtain ⟨hwaiting, -⟩ := (seconds_round (hkeeps m hm₁) ht hsince).resolve_left
    (hnot (m + 1) (Nat.le_succ_of_le hm₁))
  rw [hnext] at hwaiting
  omega

/-- A schedule of seconds is not dead. -/
theorem seconds_of_dead {s : CString} (hparse : parse s = some schedule)
    (hdead : schedule.Dead) : schedule.seconds = false := by
  rcases wellFormed_of_parse hparse with hfields | ⟨n, -, -, rfl⟩
  · exact hfields.seconds
  · exact absurd hdead.1 (by simp [CronSchedule.zero])

/-- **A job with a live schedule is due again**, if none of its runs has been started by then. -/
theorem due_leads (hpasses : PassesGoOn rounds) {job : CronJob}
    (hjob : getCronJob ((World.launch statementTimeout history).after rounds n).jobs k = some job)
    (hkeeps : ∀ m, n ≤ m → (Label.reload (rounds m).source 0).keepsSchedule k job.schedule)
    (hlive : ¬job.schedule.Dead) :
    ∃ l, n ≤ l ∧ ((World.launch statementTimeout history).after rounds l).Queued k
      (((World.launch statementTimeout history).after rounds n).insertedFor k) := by
  have haccounted := accounted_after statementTimeout history rounds n
  have hparse := parsed_after hjob
  cases hseconds : job.schedule.seconds with
  | true =>
    obtain ⟨ls, hls⟩ := after_run statementTimeout history rounds n
    have hinterval : 0 < job.schedule.interval := by
      rw [← hls] at hjob
      exact (reached_paced statementTimeout history ls).2.pos hjob hseconds
    obtain ⟨task, hlookup⟩ := Option.isSome_iff_exists.mp
      (haccounted.tracked k (by rw [hjob]; rfl))
    exact seconds_due hpasses hkeeps
      ⟨haccounted, ⟨job, hjob, rfl⟩, hseconds, hinterval, hlookup⟩
  | false =>
    cases n with
    | zero => exact absurd hjob (by simp [World.after, World.launch, getCronJob])
    | succ n =>
      have hminute := (upTo_after statementTimeout history hpasses n).isMinute
      exact calendar_due hpasses (hasFields_of_parse hparse hseconds) hlive hkeeps
        ⟨haccounted, ⟨job, hjob, rfl⟩, hminute, le_of_lt hminute.pos⟩

end Infinite

/-- **A job runs again and again, exactly if its schedule is not dead.**  Let the worker iterate
    forever, as above, with passes that are at most five minutes apart, and take a job that is
    loaded and that every later reload finds with the same schedule, be it of five fields or of
    seconds.  Unless the schedule is dead, another row is inserted for the job after every moment;
    a dead one only starts what is left in the queue. -/
theorem runs_forever_iff (statementTimeout : StatementTimeout) (history : History)
    (rounds : Nat → Round) (hclock : ClockRuns rounds) (hpasses : PassesGoOn rounds)
    (hserver : ServerAnswers (World.launch statementTimeout history) rounds)
    (htime : WaitsHaveTime (World.launch statementTimeout history) rounds) :
    let w := (World.launch statementTimeout history).after rounds
    ∀ n k job, getCronJob (w n).jobs k = some job →
      (∀ m, n ≤ m → (Label.reload (rounds m).source 0).keepsSchedule k job.schedule) →
        ((∀ m, n ≤ m → ∃ l, m ≤ l ∧ (w m).insertedFor k < (w l).insertedFor k) ↔
          ¬job.schedule.Dead) := by
  intro w n k job hjob hkeeps
  constructor
  · intro hforever hdead
    have hseconds := seconds_of_dead (parsed_after hjob) hdead
    cases n with
    | zero => exact absurd hjob (by simp [w, World.after, World.launch, getCronJob])
    | succ n =>
      have hminute := (upTo_after statementTimeout history hpasses n).isMinute
      have hscheduling := scheduling_after hpasses hseconds hkeeps
        ⟨accounted_after statementTimeout history rounds (n + 1), ⟨job, hjob, rfl⟩, hminute,
          le_of_lt hminute.pos⟩
      -- no more rows are inserted than were in the queue
      have hbound : ∀ m, n ≤ m → (w (m + 1)).queue k + (w (m + 1)).insertedFor k ≤
          (w (n + 1)).queue k + (w (n + 1)).insertedFor k := by
        intro m hm
        induction hm with
        | refl => exact le_refl _
        | @step m hm ih =>
          exact dead_round hseconds hdead
            ((upTo_after statementTimeout history hpasses m).prompt hpasses)
            (hkeeps (m + 1) (Nat.succ_le_succ hm)) (hscheduling m hm) ih
      obtain ⟨l, hl, hpast⟩ := LeadsTo.grows_past hforever
        ((w (n + 1)).queue k + (w (n + 1)).insertedFor k)
      obtain ⟨m, rfl⟩ : ∃ m, l = m + 1 := ⟨l - 1, by omega⟩
      have hle := hbound m (Nat.le_of_succ_le_succ hl)
      have hqueue := queue_nonneg (hscheduling m (Nat.le_of_succ_le_succ hl)).accounted k
      change 0 ≤ (w (m + 1)).queue k at hqueue
      omega
  · intro hlive m hm
    obtain ⟨job', hjob', hsame⟩ := loaded_after hkeeps ⟨job, hjob, rfl⟩ m hm
    have hkeeps' : ∀ l, m ≤ l →
        (Label.reload (rounds l).source 0).keepsSchedule k job'.schedule := by
      intro l hl
      rw [hsame]
      exact hkeeps l (hm.trans hl)
    obtain ⟨l, hl, hqueued⟩ := due_leads hpasses hjob' hkeeps' (by rw [hsame]; exact hlive)
    obtain ⟨l', hl', hmore⟩ := queued_leads hclock hserver htime
      (fun i hi => (hkeeps' i (hl.trans hi)).keepsLoaded) hqueued
    exact ⟨l', hl.trans hl', hmore⟩

/-- The passes of this run are a minute apart. -/
theorem lostLater_passes : PassesGoOn lostLater where
  after n := by
    show minute ≤ 60000000 * ((n : Int) + 1)
    unfold minute
    omega
  near n := by
    show 60000000 * (((n + 1 : Nat) : Int) + 1) ≤ 60000000 * ((n : Int) + 1) + 5 * minute
    unfold minute
    omega
  goes T n := lostLater_clock T n

/-- The theorem at a job of every minute. -/
theorem runs_forever_iff_lostLater :
    ∃ job, getCronJob ((World.launch defaultTimeout emptyHistory).after lostLater 2).jobs 7 =
        some job ∧
      ∀ m, 2 ≤ m → ∃ l, m ≤ l ∧
        ((World.launch defaultTimeout emptyHistory).after lostLater m).insertedFor 7 <
          ((World.launch defaultTimeout emptyHistory).after lostLater l).insertedFor 7 := by
  have hloaded : (getCronJob (loadJobsList false true (oneRow minutesRow).table) 7).any
      (fun job => job.schedule.bit .m 1 && job.schedule.bit .dom 1) = true := by decide +kernel
  obtain ⟨job, hjob, hbits⟩ := (Option.any_eq_true _ _).mp hloaded
  have hsame : getCronJob ((World.launch defaultTimeout emptyHistory).after lostLater 2).jobs 7 =
      getCronJob (loadJobsList false true (oneRow minutesRow).table) 7 := by decide +kernel
  obtain ⟨hmonth, hday⟩ := Bool.and_eq_true_iff.mp hbits
  refine ⟨job, hsame.trans hjob, (runs_forever_iff defaultTimeout emptyHistory lostLater
    lostLater_clock lostLater_passes (lostLater_answers _) (lostLater_time _) 2 7 job
    (hsame.trans hjob) fun m _ => ⟨job, hjob, rfl⟩).mpr fun hdead => ?_⟩
  exact absurd (hdead.2.2 1 1 hmonth hday) (by decide)

end NedoCron
