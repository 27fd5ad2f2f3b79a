import NedoCron.QueueBound
import NedoCron.UnsentOutput
import NedoCron.WaitTimeout
import NedoCron.Lib.LeadsTo

namespace NedoCron

/-!
# nedo_cron — every run ends, and every due run is started

An infinite run of the worker's loop.  The phases of a run are ranked: an iteration never takes a
run back, START, ERROR and DONE last one iteration each, CONNECTING and SENDING last until their
deadline at most, and RUNNING until the worker has noticed the answer of the server.  The worker
looks at the sockets only in a wait that has time, and there is none while any task waits with a
run in its queue; so that waits have time is an assumption of its own, `WaitsHaveTime`.

* `not_looks_iff` — when a wait has no time;
* `phase_iteration` — what one iteration does to the phase of a task;
* `runs_end` — every run ends, if the clock goes on, the server answers and the waits have time;
* `queued_starts` — likewise every run in the queue of a job that stays loaded is started.
-/

/-! ### Phases -/

/-- How many steps a run is away from WAITING. -/
def CronTaskState.rank : CronTaskState → Nat
  | .waiting => 0
  | .receiving => 1
  | .done => 1
  | .error => 2
  | .running => 3
  | .sending => 4
  | .connecting => 5
  | .start => 6

/-- A run is in CONNECTING or SENDING. -/
def CronTaskState.isStarting (state : CronTaskState) : Bool :=
  state = .connecting || state = .sending

/-- **A turn takes no run back.** -/
theorem Outcome.rank {context : StepContext} {io : Replies} {task : CronTask} {turn : Turn}
    (h : Outcome context io task turn) (hwaiting : task.state ≠ .waiting)
    (hreceiving : task.state ≠ .receiving) {task' : CronTask} (hkept : turn.fate = .kept task') :
    task'.state.rank < task.state.rank ∨
      (task'.state = task.state ∧ ((task.state.isStarting = true ∧
        task'.startDeadline = task.startDeadline) ∨ task.state = .running)) := by
  -- the cases in which the rank falls
  have hless : ∀ {a b : CronTaskState}, task.state = a → task'.state = b → b.rank < a.rank →
      task'.state.rank < task.state.rank ∨ (task'.state = task.state ∧
        ((task.state.isStarting = true ∧ task'.startDeadline = task.startDeadline) ∨
          task.state = .running)) := by
    rintro a b ha hb hlt
    left
    rw [ha, hb]
    exact hlt
  cases h with
  | removed hstate hactive => exact absurd hstate hwaiting
  | idle hstate => exact absurd hstate hwaiting
  | due hstate hpending => exact absurd hstate hwaiting
  | refused job hjob hstate fmt args =>
    cases hkept
    exact hless (b := .error) hstate rfl (by decide)
  | unusable job hjob hstate functions hcancel fmt args =>
    cases hkept
    exact hless (b := .error) hstate rfl (by decide)
  | opened job hjob hstate =>
    cases hkept
    exact hless (b := .connecting) hstate rfl (by decide)
  | failed hstate functions hcancel fmt args =>
    cases hkept
    refine hless (b := .error) rfl rfl ?_
    cases hs : task.state <;> rw [hs] at hstate <;>
      first | exact absurd hstate (by decide) | decide
  | waits hstate functions hcancel pollingStatus =>
    cases hkept
    -- CONNECTING and SENDING wait under the deadline that was set in START
    refine Or.inr ⟨rfl, Or.inl ⟨?_, rfl⟩⟩
    rcases hstate with h | h <;> (rw [h]; rfl)
  | connected hstate =>
    cases hkept
    exact hless (b := .sending) hstate rfl (by decide)
  | sent job hjob hstate =>
    cases hkept
    exact hless (b := .running) hstate rfl (by decide)
  | unsent job hjob hstate fmt args =>
    cases hkept
    exact hless (b := .error) hstate rfl (by decide)
  | notCancelled hstate hoverdue functions hone fmt args cancelRequested runDeadline =>
    cases hkept
    exact hless (b := .error) hstate rfl (by decide)
  | runs hstate base functions more hchecked hcancel =>
    cases hkept
    -- RUNNING may go on
    exact Or.inr ⟨hchecked.state_eq, Or.inr hstate⟩
  | unread hstate base functions more hchecked hcancel fmt args =>
    cases hkept
    exact hless (b := .error) hstate rfl (by decide)
  | succeeded hstate base functions more hchecked hcancel hread =>
    cases hkept
    exact hless (b := .done) hstate rfl (by decide)
  | resultFailed hstate base functions more hchecked hcancel before after result busy hresults
      hbefore hfails fmt =>
    cases hkept
    exact hless (b := .error) hstate rfl (by decide)
  | closed base hdone hbase =>
    obtain ⟨-, rfl⟩ := manageError_kept hkept
    refine hless (b := .done) rfl rfl ?_
    cases hs : task.state <;> first
      | exact absurd hs hwaiting
      | exact absurd hs hreceiving
      | exact absurd hs hdone
      | decide
  | reset hstate =>
    refine hless (a := .done) (b := .waiting) (hstate.resolve_right hreceiving) ?_ (by decide)
    unfold manageDone at hkept
    split at hkept <;> (cases hkept; rfl)

/-- **The start deadline.**  Once it has passed, CONNECTING and SENDING end. -/
theorem turn_late {w : World} {task : CronTask} (hstate : task.state.isStarting = true)
    {currentTime : Int} (hlate : task.startDeadline ≤ currentTime) {gap : Nat} {io : Replies}
    {task' : CronTask} (hkept : (w.turn task currentTime gap io).fate = .kept task') :
    task'.state ≠ task.state := by
  have hexceeds : timestampDifferenceExceeds task.startDeadline currentTime 0 = true := by
    rw [timestampDifferenceExceeds_zero]
    exact decide_eq_true hlate
  cases hjob : getCronJob w.jobs task.jobId with
  | none =>
    have hdone : task.state ≠ .done := by
      intro h
      rw [h] at hstate
      exact absurd hstate (by decide)
    -- without its job the run fails at once
    rw [state_of_jobless hjob hdone hkept]
    exact hdone.symm
  | some job =>
    have hfailed : task'.state = .error := by
      unfold World.turn manageCronTask World.context at hkept
      rw [hjob] at hkept
      cases hs : task.state with
      | connecting =>
        rw [hs] at hkept
        change (manageConnecting task currentTime io).fate = _ at hkept
        unfold manageConnecting at hkept
        -- the deadline is checked first, but for the active flag; either way the run fails
        rw [hexceeds] at hkept
        split at hkept <;> (cases hkept; rfl)
      | sending =>
        rw [hs] at hkept
        change (manageSending task job w.statementTimeout.ms currentTime io).fate = _ at hkept
        unfold manageSending at hkept
        rw [hexceeds] at hkept
        split at hkept <;> (cases hkept; rfl)
      | _ => rw [hs] at hstate; exact absurd hstate (by decide)
    rw [hfailed]
    intro h
    rw [← h] at hstate
    exact absurd hstate (by decide)

/-- **RUNNING goes on** only while the connection is up and no complete answer was found. -/
theorem turn_unanswered {w : World} {task : CronTask} (hstate : task.state = .running)
    {currentTime : Int} {gap : Nat} {io : Replies} {task' : CronTask}
    (hkept : (w.turn task currentTime gap io).fate = .kept task')
    (hstate' : task'.state = .running) :
    io.statusBad = false ∧
      (task.isSocketReady = false ∨ (io.consumeInput = 1 ∧ io.isBusy = true)) := by
  cases hjob : getCronJob w.jobs task.jobId with
  | none =>
    have hdone : task.state ≠ .done := by rw [hstate]; decide
    rw [state_of_jobless hjob hdone hkept] at hstate'
    cases hstate'
  | some job =>
    rw [turn_running hjob hstate] at hkept
    -- what follows the deadline check
    have hread : ∀ (base : CronTask) (calls : List Call),
        base.isSocketReady = task.isSocketReady → (readInput base io calls).fate = .kept task' →
        task.isSocketReady = false ∨ (io.consumeInput = 1 ∧ io.isBusy = true) := by
      intro base calls hsame hfate
      unfold readInput at hfate
      rw [hsame] at hfate
      split at hfate
      · rename_i hready
        exact Or.inl hready
      · split at hfate
        · cases hfate
          cases hstate'
        · rename_i hconsumed
          split at hfate
          · rename_i hbusy
            exact Or.inr ⟨not_not.mp hconsumed, hbusy⟩
          · -- the results are read, and the run is DONE or in ERROR
            unfold finishRunning at hfate
            dsimp only at hfate
            split at hfate
            · cases hfate
              cases hstate'
            · rename_i herror
              cases hfate
              rw [not_not] at herror
              exact absurd (herror.symm.trans hstate') (by decide)
    unfold manageRunning at hkept
    split at hkept
    · cases hkept
      cases hstate'
    · split at hkept
      · cases hkept
        cases hstate'
      · rename_i hbad
        have hup : io.statusBad = false := by
          unfold connectionBad at hbad
          cases hio : io.statusBad with
          | false => rfl
          | true => rw [hio, Bool.or_true] at hbad; exact absurd rfl hbad
        refine ⟨hup, ?_⟩
        split at hkept
        · split at hkept
          · cases hkept
            cases hstate'
          · split at hkept
            · cases hkept
              cases hstate'
            · exact hread { task with
                cancelRequested := true
                timedOut := true
                runDeadline := 0
                pollingStatus := .reading } _ rfl hkept
        · exact hread task _ rfl hkept

/-! ### Iterations -/

/-- The steps that the run of a job is away from WAITING. -/
def World.phase (w : World) (k : Int) : Nat :=
  ((w.tasks.lookup k).map fun task => task.state.rank).getD 0

/-- The phase of a job with a task. -/
theorem phase_of_lookup {w : World} {k : Int} {task : CronTask}
    (h : w.tasks.lookup k = some task) : w.phase k = task.state.rank := by
  rw [World.phase, h]
  rfl

/-- The wait of an iteration has time to look at the sockets. -/
def World.Looks (w : World) (input : IterationInput) : Prop :=
  ((w.refreshed input).startPending input.currentTime).waitTimeout input.wait ≠ 0

/-- **A wait has no time** exactly if a task waits with a run in its queue, or the next event is
    less than a millisecond away. -/
theorem not_looks_iff (w : World) (input : IterationInput) :
    let passed := (w.refreshed input).startPending input.currentTime
    let taskList := passed.unreadyTasks.entries.map fun e => e.2
    ¬w.Looks input ↔ (∃ task ∈ taskList, task.Ready) ∨
      ∃ e ∈ wakeUps passed.jobs taskList input.wait.timestamp, e < input.wait.timestamp + 1000 := by
  intro passed taskList
  have htimeout : w.Looks input ↔
      calculateWaitTimeout passed.jobs taskList input.wait.timestamp ≠ 0 := Iff.rfl
  rw [htimeout, not_not, calculateWaitTimeout_eq]
  by_cases hready : ∃ task ∈ taskList, task.Ready
  · rw [if_pos hready]
    exact iff_of_true rfl (Or.inl hready)
  · rw [if_neg hready]
    have hleast := isLeast_wakeUps passed.jobs taskList input.wait.timestamp
    rw [Alarm.ticks_eq_zero (by decide) (by decide)]
    constructor
    · exact fun hnext => Or.inr ⟨_, hleast.1, hnext⟩
    · rintro (hready' | ⟨e, he, hlt⟩)
      · exact absurd hready' hready
      · exact lt_of_le_of_lt (hleast.2 he) hlt

/-- The answer to the query of a job is there: its connection is lost, or its socket is ready and
    the input is complete or cannot be read. -/
def IterationInput.Answers (input : IterationInput) (k : Int) : Prop :=
  (input.replies k).statusBad = true ∨
    (input.wait.ready k = true ∧
      ((input.replies k).consumeInput ≠ 1 ∨ (input.replies k).isBusy = false))

/-- An iteration notices the answer: a lost connection in any case, what is there to be read only
    if its wait has time. -/
def World.Notices (w : World) (input : IterationInput) (k : Int) : Prop :=
  input.Answers k ∧ ((input.replies k).statusBad = true ∨ w.Looks input)

/-- The top of an iteration touches no more of a task than its active flag. -/
theorem lookup_refreshed (w : World) (input : IterationInput) {k : Int} {task : CronTask}
    (hlookup : w.tasks.lookup k = some task) :
    ∃ isActive, (w.refreshed input).tasks.lookup k = some { task with isActive := isActive } := by
  have hinvalidate : (if input.invalidated then w.step .invalidate else w).tasks = w.tasks := by
    split <;> rfl
  unfold World.refreshed
  dsimp only
  rw [← hinvalidate] at hlookup
  generalize (if input.invalidated then w.step .invalidate else w) = w at hlookup
  have hsighup : (input.sighup.elim w fun statementTimeout =>
      w.step (.sighup statementTimeout)).tasks = w.tasks := by
    cases input.sighup <;> rfl
  rw [← hsighup] at hlookup
  generalize (input.sighup.elim w fun statementTimeout =>
    w.step (.sighup statementTimeout)) = w at hlookup
  split
  · rw [lookup_reload, hlookup]
    split
    · exact ⟨true, rfl⟩
    · exact ⟨false, rfl⟩
  · exact ⟨task.isActive, hlookup⟩

/-- A wait that sees the socket of a run in RUNNING ready says so, or fails the run. -/
theorem awaitTask_ready {io : WaitReplies} {k : Int} {task : CronTask}
    (hreads : task.pollingStatus = .reading) (hready : io.ready k = true)
    (hstate : (awaitTask io k task).state = .running) :
    (awaitTask io k task).isSocketReady = true := by
  have hsame : task.state = .running := by
    rcases awaitTask_cases io k task with ⟨ready, heq⟩ | ⟨-, fmt, args, pollingStatus, heq⟩
    · rwa [heq] at hstate
    · rw [heq] at hstate
      cases hstate
  have hneeds : ¬(taskNeedsSocketWait task = false ∨ taskWaitEvents task = none) := by
    unfold taskNeedsSocketWait taskWaitEvents
    rw [hsame, hreads]
    simp
  unfold awaitTask registerTask at hstate ⊢
  rw [if_neg hneeds] at hstate ⊢
  split at hstate
  · cases hstate
  · split at hstate
    · cases hstate
    · rename_i conn hsocket
      rw [if_neg hsocket, hready]
      rfl

/-- **Before the turns.**  The top of an iteration, its pass and its wait leave the run of a task
    alone, or fail it; they take nothing out of its queue, and if the wait sees the socket of a
    query ready, the query will be read from. -/
theorem lookup_waited (w : World) (input : IterationInput) {k : Int} {task : CronTask}
    (hlookup : w.tasks.lookup k = some task) :
    ∃ t, (((w.refreshed input).startPending input.currentTime).waitForEvent
        input.wait).tasks.lookup k = some t ∧
      (Idles task t ∨ (task.state.isConnected = true ∧ t.state = .error)) ∧
      task.pendingRunCount ≤ t.pendingRunCount ∧
      (task.pollingStatus = .reading → w.Looks input → input.wait.ready k = true →
        t.state = .running → t.isSocketReady = true) := by
  obtain ⟨isActive, hlookup₁⟩ := lookup_refreshed w input hlookup
  -- the scheduling pass only adds to the queue
  obtain ⟨n, next, hscheduled⟩ := schedulePendingTask_eq (w.refreshed input).jobs
    (initLastMinute (w.refreshed input).lastMinute input.currentTime) input.currentTime
    { task with isActive := isActive }
  have hqueue : task.pendingRunCount ≤ n := by
    have hpending := schedulePendingTask_pending (w.refreshed input).jobs
      (initLastMinute (w.refreshed input).lastMinute input.currentTime) input.currentTime
      { task with isActive := isActive }
    have hnonneg := passIncrements_nonneg (w.refreshed input).jobs
      (initLastMinute (w.refreshed input).lastMinute input.currentTime) input.currentTime
      { task with isActive := isActive }
    rw [hscheduled] at hpending
    change n = task.pendingRunCount + _ at hpending
    omega
  rw [lookup_wait, lookup_startPending, hlookup₁, Option.map_some, hscheduled, Option.map_some]
  by_cases hlooks : w.Looks input
  · rw [if_neg hlooks]
    refine ⟨_, rfl, ?_, ?_, fun hreads _ hready hstate => awaitTask_ready hreads hready hstate⟩
    · rcases awaitTask_cases input.wait k (CronTask.unready
        { task with isActive := isActive, pendingRunCount := n, nextRunTime := next }) with
        ⟨ready, heq⟩ | ⟨hconnected, fmt, args, pollingStatus, heq⟩
      · rw [heq]
        exact Or.inl ⟨n, next, isActive, ready, rfl⟩
      · rw [heq]
        exact Or.inr ⟨hconnected, rfl⟩
    · obtain ⟨state, pollingStatus, errorMessage, ready, heq⟩ := awaitTask_eq input.wait k
        (CronTask.unready
          { task with isActive := isActive, pendingRunCount := n, nextRunTime := next })
      rw [heq]
      exact hqueue
  · rw [if_pos (not_not.mp hlooks)]
    exact ⟨_, rfl, Or.inl ⟨n, next, isActive, false, rfl⟩, hqueue,
      fun _ hlooks' => absurd hlooks' hlooks⟩

/-- The top of an iteration is a run of steps. -/
theorem refreshed_reaches (w : World) (input : IterationInput) :
    Machine.Reaches World.step w (w.refreshed input) := by
  have hinvalidate : Machine.Reaches World.step w
      (if input.invalidated then w.step .invalidate else w) := by
    split
    · exact Machine.Reaches.single w Label.invalidate
    · exact Machine.Reaches.refl w
  refine hinvalidate.trans ?_
  unfold World.refreshed
  dsimp only
  generalize (if input.invalidated then w.step .invalidate else w) = w
  have hsighup : Machine.Reaches World.step w
      (input.sighup.elim w fun statementTimeout => w.step (.sighup statementTimeout)) := by
    cases input.sighup with
    | some statementTimeout => exact Machine.Reaches.single w (Label.sighup statementTimeout)
    | none => exact Machine.Reaches.refl w
  refine hsighup.trans ?_
  generalize (input.sighup.elim w fun statementTimeout =>
    w.step (.sighup statementTimeout)) = w
  split
  · exact Machine.Reaches.single w (Label.reload input.source input.currentTime)
  · exact Machine.Reaches.refl w

/-- The turns load no jobs. -/
theorem jobs_manageAll (w : World) (jobIds : List Int) (currentTime : Int) (gap : Int → Nat)
    (replies : Int → Replies) :
    (w.manageAll jobIds currentTime gap replies).jobs = w.jobs := by
  induction jobIds generalizing w with
  | nil => rfl
  | cons jobId jobIds ih => exact (ih _).trans (jobs_manage w jobId currentTime _ _)

/-- The turns of all tasks are those before the turn of a job, this turn, and those after it. -/
theorem manageAll_split {k : Int} {jobIds : List Int} (hk : k ∈ jobIds) (hnodup : jobIds.Nodup)
    (w : World) (currentTime : Int) (gap : Int → Nat) (replies : Int → Replies) :
    ∃ w', Machine.Reaches World.step w w' ∧ w'.jobs = w.jobs ∧
      w'.tasks.lookup k = w.tasks.lookup k ∧
      Machine.Reaches World.step (w'.manage k currentTime (gap k) (replies k))
        (w.manageAll jobIds currentTime gap replies) ∧
      (w.manageAll jobIds currentTime gap replies).tasks.lookup k =
        (w'.manage k currentTime (gap k) (replies k)).tasks.lookup k := by
  obtain ⟨front, back, rfl⟩ := List.append_of_mem hk
  have hfront : k ∉ front := fun hmem =>
    List.disjoint_of_nodup_append hnodup hmem List.mem_cons_self
  have hback : k ∉ back := (List.nodup_cons.mp hnodup.of_append_right).1
  have hsplit : w.manageAll (front ++ k :: back) currentTime gap replies =
      ((w.manageAll front currentTime gap replies).manage k currentTime (gap k)
        (replies k)).manageAll back currentTime gap replies := by
    rw [World.manageAll, List.foldl_append, List.foldl_cons]
    rfl
  refine ⟨w.manageAll front currentTime gap replies, (manageAll_reaches _ _ _ _ _).reaches,
    jobs_manageAll _ _ _ _ _, lookup_manageAll_of_not_mem hfront _ _ _ _, ?_, ?_⟩
  · rw [hsplit]
    exact (manageAll_reaches _ _ _ _ _).reaches
  · rw [hsplit]
    exact lookup_manageAll_of_not_mem hback _ _ _ _

/-- The turn of the task of a job in an iteration: `w'` is the state before it, `t` the task. -/
structure TurnOf (w : World) (input : IterationInput) (k : Int) (task : CronTask) (w' : World)
    (t : CronTask) : Prop where
  before : Machine.Reaches World.step w w'
  after : Machine.Reaches World.step
    (w'.manage k input.manageTime (input.gap k) (input.replies k)) (w.loopIteration input)
  jobs : (w.loopIteration input).jobs = w'.jobs
  lookup : w'.tasks.lookup k = some t
  final : (w.loopIteration input).tasks.lookup k =
    (w'.turn t input.manageTime (input.gap k) (input.replies k)).fate.task
  run : Idles task t ∨ (task.state.isConnected = true ∧ t.state = .error)
  queue : task.pendingRunCount ≤ t.pendingRunCount
  ready : task.pollingStatus = .reading → w.Looks input → input.wait.ready k = true →
    t.state = .running → t.isSocketReady = true

/-- **The turn of an iteration.** -/
theorem iteration_turn (w : World) (input : IterationInput) {k : Int} {task : CronTask}
    (hlookup : w.tasks.lookup k = some task) : ∃ w' t, TurnOf w input k task w' t := by
  obtain ⟨t, hlookup', hrun, hqueue, hready⟩ := lookup_waited w input hlookup
  obtain ⟨isActive, hrefreshed⟩ := lookup_refreshed w input hlookup
  have hk : k ∈ (w.refreshed input).tasks.keys :=
    AList.mem_keys.mpr (AList.lookup_isSome.mp (by rw [hrefreshed]; rfl))
  have hwaited : Machine.Reaches World.step w
      (((w.refreshed input).startPending input.currentTime).waitForEvent input.wait) :=
    ((refreshed_reaches w input).trans
      (Machine.Reaches.single _ (Label.startPending input.currentTime))).trans
      (Machine.Reaches.single _ (Label.wait input.wait))
  obtain ⟨w', hbefore, hjobs, hsame, hafter, hfinal⟩ := manageAll_split hk (AList.keys_nodup _)
    (((w.refreshed input).startPending input.currentTime).waitForEvent input.wait)
    input.manageTime input.gap input.replies
  have hlookup'' := hsame.trans hlookup'
  rw [← loopIteration_eq] at hafter hfinal
  have hjobs' : (w.loopIteration input).jobs = w'.jobs := by
    rw [loopIteration_eq, jobs_manageAll, hjobs]
  exact ⟨w', t, hwaited.trans hbefore, hafter, hjobs', hlookup'',
    hfinal.trans (lookup_manage_self hlookup'' _ _ _), hrun, hqueue, hready⟩

/-- The run of a job stays in its phase during an iteration. -/
def World.Stays (w : World) (input : IterationInput) (k : Int) : Prop :=
  ∃ task task', w.tasks.lookup k = some task ∧
    (w.loopIteration input).tasks.lookup k = some task' ∧ task'.state = task.state ∧
    ((task.state.isStarting = true ∧ task'.startDeadline = task.startDeadline ∧
        input.manageTime < task.startDeadline) ∨
      (task.state = .running ∧ ¬w.Notices input k))

/-- **Phases.**  An iteration takes the run of a job further, unless the connection is not yet
    there and may still come, or the query has got no answer. -/
theorem phase_iteration {w : World} (hok : WorldOk w)
    (hreads : w.All fun task => task.state = .running → task.pollingStatus = .reading)
    (input : IterationInput) {k : Int} (hunder : 0 < w.phase k) :
    (w.loopIteration input).phase k < w.phase k ∨ w.Stays input k := by
  obtain ⟨task, hlookup⟩ : ∃ task, w.tasks.lookup k = some task := by
    cases h : w.tasks.lookup k with
    | some task => exact ⟨task, rfl⟩
    | none =>
      rw [World.phase, h] at hunder
      exact absurd hunder (lt_irrefl 0)
  have hphase := phase_of_lookup hlookup
  rw [hphase] at hunder ⊢
  have hwaiting : task.state ≠ .waiting := by
    intro h
    rw [h] at hunder
    exact absurd hunder (by decide)
  have hreceiving := (hok.tasks k task hlookup).not_receiving
  obtain ⟨w', t, hturn⟩ := iteration_turn w input hlookup
  cases hfate : (w'.turn t input.manageTime (input.gap k) (input.replies k)).fate with
  | removed =>
    left
    rw [World.phase, hturn.final, hfate]
    exact hunder
  | kept task' =>
    have hfinal := hturn.final
    rw [hfate] at hfinal
    change _ = some task' at hfinal
    rw [phase_of_lookup hfinal]
    have houtcome := turn_outcome w' t input.manageTime (input.gap k) (input.replies k)
    rcases hturn.run with hidles | ⟨hconnected, herror⟩
    · have hstate := hidles.sameRun.state
      have hdeadline : t.startDeadline = task.startDeadline := by
        obtain ⟨_, _, _, _, rfl⟩ := hidles
        rfl
      rcases houtcome.rank (by rwa [hstate]) (by rwa [hstate]) hfate with hlt | ⟨hsame, hstays⟩
      · rw [hstate] at hlt
        exact Or.inl hlt
      · refine Or.inr ⟨task, task', hlookup, hfinal, hsame.trans hstate, ?_⟩
        rw [hstate] at hsame hstays
        rcases hstays with ⟨hstarting, hkept⟩ | hrunning
        · refine Or.inl ⟨hstarting, hkept.trans hdeadline, ?_⟩
          by_contra hlate
          rw [← hdeadline, not_lt] at hlate
          exact turn_late (by rwa [hstate]) hlate hfate (hsame.trans hstate.symm)
        · refine Or.inr ⟨hrunning, ?_⟩
          obtain ⟨hup, hinput⟩ := turn_unanswered (hstate.trans hrunning) hfate
            (hsame.trans hrunning)
          rintro ⟨hanswers, hnotices⟩
          have hlooks := hnotices.resolve_left (by rw [hup]; exact Bool.false_ne_true)
          rcases hanswers with hbad | ⟨hready, hcomplete⟩
          · rw [hup] at hbad
            cases hbad
          · have hsocket := hturn.ready (hreads k task hlookup hrunning) hlooks hready
              (hstate.trans hrunning)
            rw [hsocket] at hinput
            obtain ⟨hconsumed, hbusy⟩ := hinput.resolve_left (by simp)
            rcases hcomplete with h | h
            · exact h hconsumed
            · rw [hbusy] at h
              cases h
    · -- the wait has failed the run
      left
      have hrank : task'.state.rank < t.state.rank := by
        rcases houtcome.rank (by rw [herror]; decide) (by rw [herror]; decide) hfate with
          hlt | ⟨-, ⟨hstarting, -⟩ | hrunning⟩
        · exact hlt
        · rw [herror] at hstarting
          exact absurd hstarting (by decide)
        · rw [herror] at hrunning
          exact absurd hrunning (by decide)
      refine lt_trans hrank ?_
      rw [herror]
      cases hs : task.state <;> rw [hs] at hconnected <;>
        first | exact absurd hconnected (by decide) | decide

/-! ### Infinite runs -/

/-- A round of the loop: what its iteration meets, and the rows of the history that others delete
    meanwhile, as by the cascade of a job that is unscheduled.  The worker never reads the history,
    so the deletions may as well follow the iteration. -/
structure Round extends IterationInput where
  gone : Int → Bool

/-- One round. -/
def World.round (w : World) (r : Round) : World :=
  (w.loopIteration r.toIterationInput).step (.deleteRuns r.gone)

/-- The worker after `n` rounds of an infinite run. -/
def World.after (w : World) (rounds : Nat → Round) : Nat → World
  | 0 => w
  | n + 1 => (w.after rounds n).round (rounds n)

/-- A round is a run of steps. -/
theorem round_reaches (w : World) (r : Round) : Machine.Reaches World.step w (w.round r) :=
  (loopIteration_reaches w r.toIterationInput).reaches.trans
    (Machine.Reaches.single _ (Label.deleteRuns r.gone))

/-- Later rounds are reached from earlier ones. -/
theorem after_reaches (w : World) (rounds : Nat → Round) {n m : Nat} (h : n ≤ m) :
    Machine.Reaches World.step (w.after rounds n) (w.after rounds m) := by
  induction h with
  | refl => exact Machine.Reaches.refl _
  | step _ ih => exact ih.trans (round_reaches _ _)

/-- An infinite run is a run of steps, up to every time. -/
theorem after_run (statementTimeout : StatementTimeout) (history : History)
    (rounds : Nat → Round) (n : Nat) :
    ∃ ls, Machine.run World.step (World.launch statementTimeout history) ls =
      (World.launch statementTimeout history).after rounds n :=
  after_reaches (World.launch statementTimeout history) rounds (Nat.zero_le n)

/-- The run of a job has sent its query and waits for the results. -/
def World.Querying (w : World) (k : Int) : Prop :=
  ∃ task, w.tasks.lookup k = some task ∧ task.state = .running

/-- The time of the turns goes on. -/
def ClockRuns (rounds : Nat → Round) : Prop :=
  ∀ T n, ∃ m, n ≤ m ∧ T ≤ (rounds m).manageTime

/-- A query that waits for its results forever is answered, and the answer stays there until it is
    read. -/
def ServerAnswers (w : World) (rounds : Nat → Round) : Prop :=
  ∀ k n, (∀ m, n ≤ m → (w.after rounds m).Querying k) →
    ∃ m, n ≤ m ∧ ∀ l, m ≤ l → (rounds l).Answers k

/-- While a query waits for its results on a live connection, a wait has time to look at the
    sockets again and again: other jobs do not keep the worker from waiting forever. -/
def WaitsHaveTime (w : World) (rounds : Nat → Round) : Prop :=
  ∀ k n, (∀ m, n ≤ m → (w.after rounds m).Querying k ∧
      ((rounds m).replies k).statusBad = false) →
    ∃ m, n ≤ m ∧ (w.after rounds m).Looks (rounds m).toIterationInput

/-- **What is answered is noticed**, if the waits have time. -/
theorem notices_of_answers {w : World} {rounds : Nat → Round} (hserver : ServerAnswers w rounds)
    (htime : WaitsHaveTime w rounds) {k : Int} {n : Nat}
    (hquerying : ∀ m, n ≤ m → (w.after rounds m).Querying k) :
    ∃ m, n ≤ m ∧ (w.after rounds m).Notices (rounds m).toIterationInput k := by
  obtain ⟨m, hm, hanswers⟩ := hserver k n hquerying
  by_cases hlost : ∃ l, m ≤ l ∧ ((rounds l).replies k).statusBad = true
  · obtain ⟨l, hl, hbad⟩ := hlost
    exact ⟨l, hm.trans hl, hanswers l hl, Or.inl hbad⟩
  · obtain ⟨l, hl, hlooks⟩ := htime k m fun l hl => ⟨hquerying l (hm.trans hl), by
      rw [← Bool.not_eq_true]
      exact fun hbad => hlost ⟨l, hl, hbad⟩⟩
    exact ⟨l, hm.trans hl, hanswers l hl, Or.inr hlooks⟩

/-- The phases along an infinite run. -/
theorem phase_after (statementTimeout : StatementTimeout) (history : History)
    (rounds : Nat → Round) (n : Nat) {k : Int} :
    let w := (World.launch statementTimeout history).after rounds
    0 < (w n).phase k →
      (w (n + 1)).phase k < (w n).phase k ∨ (w n).Stays (rounds n).toIterationInput k := by
  intro w hunder
  obtain ⟨ls, hls⟩ := after_run statementTimeout history rounds n
  have hok : WorldOk (w n) := by
    show WorldOk ((World.launch statementTimeout history).after rounds n)
    rw [← hls]
    exact Machine.run_induction (fun _ l h => h.step l) ls (worldOk_launch _ _)
  have hreads : (w n).All fun task => task.state = .running → task.pollingStatus = .reading := by
    show ((World.launch statementTimeout history).after rounds n).All _
    rw [← hls]
    exact running_reads.run statementTimeout history
      (Machine.guarded_of_forall (p := fun _ => True) _ fun _ _ => trivial)
  exact phase_iteration hok hreads (rounds n).toIterationInput hunder

/-- A connection that is not there at its deadline is given up. -/
theorem starting_ends {w : World} {rounds : Nat → Round} (hclock : ClockRuns rounds)
    {k : Int} {n : Nat}
    (hstays : ∀ m, n ≤ m → (w.after rounds m).Stays (rounds m).toIterationInput k)
    {task : CronTask} (hlookup : (w.after rounds n).tasks.lookup k = some task) :
    task.state = .running := by
  by_contra hnot
  -- the state and the deadline are kept
  have hkept : ∀ m, n ≤ m → ∃ task', (w.after rounds m).tasks.lookup k = some task' ∧
      task'.state = task.state ∧ task'.startDeadline = task.startDeadline := by
    intro m hm
    induction hm with
    | refl => exact ⟨task, hlookup, rfl, rfl⟩
    | @step m hm ih =>
      obtain ⟨task₁, hlookup₁, hstate₁, hdeadline₁⟩ := ih
      obtain ⟨task₁', task₂, hlookup₁', hlookup₂, hstate₂, hcase⟩ := hstays m hm
      obtain rfl := Option.some.inj (hlookup₁.symm.trans hlookup₁')
      rcases hcase with ⟨-, hdeadline₂, -⟩ | ⟨hrunning, -⟩
      · exact ⟨task₂, hlookup₂, hstate₂.trans hstate₁, hdeadline₂.trans hdeadline₁⟩
      · exact absurd (hstate₁.symm.trans hrunning) hnot
  obtain ⟨m, hm, hlate⟩ := hclock task.startDeadline n
  obtain ⟨task₁, hlookup₁, hstate₁, hdeadline₁⟩ := hkept m hm
  obtain ⟨task₁', task₂, hlookup₁', -, -, hcase⟩ := hstays m hm
  obtain rfl := Option.some.inj (hlookup₁.symm.trans hlookup₁')
  rcases hcase with ⟨-, -, hearly⟩ | ⟨hrunning, -⟩
  · omega
  · exact hnot (hstate₁.symm.trans hrunning)

/-- **No phase lasts forever.** -/
theorem phase_left {w : World} {rounds : Nat → Round} (hclock : ClockRuns rounds)
    (hserver : ServerAnswers w rounds) (htime : WaitsHaveTime w rounds) (k : Int) (n : Nat) :
    ¬∀ m, n ≤ m → (w.after rounds m).Stays (rounds m).toIterationInput k := by
  intro hstays
  -- the query waits in each iteration, and one of them notices the answer
  have hquerying : ∀ m, n ≤ m → (w.after rounds m).Querying k := by
    intro m hm
    obtain ⟨task, _, hlookup, -⟩ := hstays m hm
    exact ⟨task, hlookup, starting_ends hclock (fun l hl => hstays l (hm.trans hl)) hlookup⟩
  obtain ⟨m, hm, hnotices⟩ := notices_of_answers hserver htime hquerying
  obtain ⟨task, hlookup, hrunning⟩ := hquerying m hm
  obtain ⟨task', _, hlookup', -, -, hcase⟩ := hstays m hm
  obtain rfl := Option.some.inj (hlookup.symm.trans hlookup')
  rcases hcase with ⟨hstarting, -, -⟩ | ⟨-, hunanswered⟩
  · rw [hrunning] at hstarting
    exact absurd hstarting (by decide)
  · exact hunanswered hnotices

/-- **WAITING comes again.** -/
theorem phase_leads {statementTimeout : StatementTimeout} {history : History}
    {rounds : Nat → Round} (hclock : ClockRuns rounds)
    (hserver : ServerAnswers (World.launch statementTimeout history) rounds)
    (htime : WaitsHaveTime (World.launch statementTimeout history) rounds) (k : Int) :
    LeadsTo.Leads (fun _ => True) fun n =>
      ((World.launch statementTimeout history).after rounds n).phase k = 0 := by
  refine LeadsTo.leads_of_rank
    (fun n => ((World.launch statementTimeout history).after rounds n).phase k) fun a => ?_
  rcases Nat.eq_zero_or_pos a with rfl | ha
  · exact LeadsTo.leads_of_imp fun n h => Or.inl h.2
  · -- at a rank above zero a round lowers it, or the run stays where it is
    have hphase : ∀ n, True ∧
        ((World.launch statementTimeout history).after rounds n).phase k = a →
        ((World.launch statementTimeout history).after rounds (n + 1)).phase k < a ∨
          ((World.launch statementTimeout history).after rounds n).Stays
            (rounds n).toIterationInput k := by
      rintro n ⟨-, h⟩
      rw [← h] at ha ⊢
      exact phase_after statementTimeout history rounds n ha
    refine LeadsTo.leads_of_left (fun n h => ?_) fun n hall => ?_
    · rcases hphase n h with hlt | ⟨task, task', hlookup, hlookup', hsame, -⟩
      · exact Or.inr (Or.inr ⟨trivial, hlt⟩)
      · refine Or.inl ⟨trivial, ?_⟩
        rw [← h.2, phase_of_lookup hlookup]
        show (((World.launch statementTimeout history).after rounds n).loopIteration
          (rounds n).toIterationInput).phase k = _
        rw [phase_of_lookup hlookup', hsame]
    · refine phase_left hclock hserver htime k n fun m hm => (hphase m (hall m hm)).resolve_left ?_
      rw [(hall (m + 1) (Nat.le_succ_of_le hm)).2]
      exact lt_irrefl a

/-! ### Every run ends -/

/-- What the worker does deletes no row. -/
theorem row_kept {w w' : World} (h : WorkerReaches w w') {r : Int}
    (hrow : (w.history.runs.lookup r).isSome = true) :
    (w'.history.runs.lookup r).isSome = true := by
  -- no statement of the worker deletes a row
  have hcall : ∀ (history : History) (call : Call), (history.runs.lookup r).isSome = true →
      ((history.apply call).runs.lookup r).isSome = true := by
    intro history call hsome
    have hadjust : ∀ (run : Int) (f : RunRow → RunRow),
        ((history.updateRun run f).runs.lookup r).isSome = true := by
      intro run f
      show ((Table.adjust run f history.runs).lookup r).isSome = true
      by_cases hr : r = run
      · rw [hr, Table.lookup_adjust_self, ← hr, Option.isSome_map]
        exact hsome
      · rw [Table.lookup_adjust_ne hr]
        exact hsome
    cases call with
    | insertRun run jobId database userName startTime =>
      show ((history.runs.insert run _).lookup r).isSome = true
      by_cases hr : r = run
      · rw [hr, AList.lookup_insert]
        rfl
      · rw [AList.lookup_insert_ne hr]
        exact hsome
    | updatePID run pid =>
      show ((if pid = 0 then history else history.updateRun run _).runs.lookup r).isSome = true
      split
      · exact hsome
      · exact hadjust run _
    | finishRun run status message endTime => exact hadjust run _
    | _ => exact hsome
  have hcalls : ∀ (calls : List Call) (history : History),
      (history.runs.lookup r).isSome = true →
      ((calls.foldl History.apply history).runs.lookup r).isSome = true := by
    intro calls
    induction calls with
    | nil => exact fun history hsome => hsome
    | cons call calls ih => exact fun history hsome => ih _ (hcall history call hsome)
  obtain ⟨ls, hls, rfl⟩ := h
  -- and a run of the worker has no deletion
  refine Machine.guarded_induction (P := fun w => (w.history.runs.lookup r).isSome = true)
    (fun w l hl hsome => ?_) (Machine.guarded_of_forall w hls) hrow
  cases l with
  | manage jobId currentTime gap io =>
    show ((w.manage jobId currentTime gap io).history.runs.lookup r).isSome = true
    unfold World.manage
    split
    · exact hsome
    · exact hcalls _ _ hsome
  | wait io =>
    show ((w.waitForEvent io).history.runs.lookup r).isSome = true
    unfold World.waitForEvent
    dsimp only
    split <;> exact hsome
  | deleteRuns gone => exact absurd hl (by simp [Label.isDeletion])
  | _ => exact hsome

/-- A row that no round deletes is kept. -/
theorem row_after {w : World} {rounds : Nat → Round} {r : Int} {n m : Nat} (hm : n ≤ m)
    (hrow : ((w.after rounds n).history.runs.lookup r).isSome = true)
    (hkept : ∀ i, n ≤ i → i < m → (rounds i).gone r = false) :
    ((w.after rounds m).history.runs.lookup r).isSome = true := by
  induction hm with
  | refl => exact hrow
  | @step m hm ih =>
    have hworked := row_kept (loopIteration_reaches (w.after rounds m) (rounds m).toIterationInput)
      (ih fun i hi hlt => hkept i hi (Nat.lt_succ_of_lt hlt))
    show ((Table.keep (fun r _ => !(rounds m).gone r) _).lookup r).isSome = true
    rw [Table.lookup_keep, hkept m hm (Nat.lt_succ_self m)]
    cases hlookup : ((w.after rounds m).loopIteration
      (rounds m).toIterationInput).history.runs.lookup r with
    | none =>
      rw [hlookup] at hworked
      cases hworked
    | some row => rfl

/-- The record of calls only grows. -/
theorem trace_reaches {w w' : World} (h : Machine.Reaches World.step w w') :
    ∃ entries, w'.trace = w.trace ++ entries := by
  obtain ⟨ls, rfl⟩ := h
  refine Machine.run_induction
    (P := fun w' : World => ∃ entries, w'.trace = w.trace ++ entries) (fun w' l h => ?_) ls
    ⟨[], (List.append_nil _).symm⟩
  obtain ⟨entries, htrace⟩ := h
  obtain ⟨more, hmore⟩ := trace_step w' l
  exact ⟨entries ++ more, by rw [hmore, htrace, List.append_assoc]⟩

/-- No inserted row is forgotten. -/
theorem insertedFor_reaches {w w' : World} (h : Machine.Reaches World.step w w') (k : Int) :
    w.insertedFor k ≤ w'.insertedFor k := by
  obtain ⟨entries, htrace⟩ := trace_reaches h
  have hmore := insertedFor_append k htrace
  omega

/-- **A row is closed** once the task of its job is not in a run any more. -/
theorem row_closed {history : History} {w w' : World} (h : HistoryOk history w)
    (h' : HistoryOk history w') (hreaches : Machine.Reaches World.step w w') {r : Int}
    {row row' : RunRow} (hnew : history.lastRunId < r)
    (hrow : w.history.runs.lookup r = some row) (hstatus : row.status.isOpen = true)
    (hphase : w'.phase row.jobid = 0) (hrow' : w'.history.runs.lookup r = some row') :
    row'.status.isFinal = true := by
  obtain ⟨entries, htrace⟩ := trace_reaches hreaches
  obtain ⟨hinserted', hafter'⟩ := h'.row hnew hrow'
  obtain ⟨task, hlookup, hworks⟩ := h.open_task hnew hrow hstatus
  have hopen := openRun_eq_some_iff.mpr hworks
  have hbegun := (h.recorded.opened row.jobid task r hlookup hopen).begun
  rw [runId_of_openRun hopen, (h.ok.tasks _ task hlookup).keyed] at hbegun
  rcases h'.run_cases hinserted' with ⟨k', task', hlookup', hopen', hunder'⟩ | ⟨-, hover⟩
  · -- a task that is still in the run would be the task of the same job
    have hbegun' := hunder'.begun
    rw [runId_of_openRun hopen', (h'.ok.tasks k' task' hlookup').keyed] at hbegun'
    have hsame := begun_jobId hbegun hbegun' (statements_grow htrace r)
    rw [hsame, phase_of_lookup hlookup'] at hphase
    have hflight := (openRun_eq_some_iff.mp hopen').1
    cases hs : task'.state <;> rw [hs] at hphase hflight <;>
      first | exact absurd hphase (by decide) | exact absurd hflight (by decide)
  · obtain ⟨jobId, begun, status, message, endTime, hbegun', hsql, hfinal, -⟩ := hover
    obtain ⟨row'', hrow'', hfinished⟩ := row_of_over hbegun' status message endTime
    rw [← hsql] at hrow''
    obtain rfl := Option.some.inj (hafter'.symm.trans hrow'')
    rw [hfinished]
    exact hfinal

/-- **Every run ends.**  Let the worker iterate forever, with any rounds: the jobs table changes,
    rows of the history are deleted, connections are lost, sockets are ready or not.  If the clock
    goes on, a query that waits for its results is answered some time, and meanwhile a wait has
    time again and again, then every run that the worker has started ends: its row gets a final
    status, unless it is deleted before. -/
theorem runs_end (statementTimeout : StatementTimeout) (history : History)
    (rounds : Nat → Round) (hclock : ClockRuns rounds)
    (hserver : ServerAnswers (World.launch statementTimeout history) rounds)
    (htime : WaitsHaveTime (World.launch statementTimeout history) rounds) :
    let w := (World.launch statementTimeout history).after rounds
    ∀ n r row, history.lastRunId < r → (w n).history.runs.lookup r = some row →
      row.status.isOpen = true →
        ∃ m, n ≤ m ∧
          ((∃ row', (w m).history.runs.lookup r = some row' ∧ row'.status.isFinal = true) ∨
            ∃ i, n ≤ i ∧ i < m ∧ (rounds i).gone r = true) := by
  intro w n r row hnew hrow hstatus
  -- what is known of the history holds in every round
  have hok : ∀ n, HistoryOk history (w n) := by
    intro n
    obtain ⟨ls, hls⟩ := after_run statementTimeout history rounds n
    show HistoryOk history ((World.launch statementTimeout history).after rounds n)
    rw [← hls]
    exact historyOk_run statementTimeout history ls
  -- the task of the job comes to WAITING, so the run is over by then
  obtain ⟨m, hm, hphase⟩ := phase_leads hclock hserver htime row.jobid n trivial
  refine ⟨m, hm, ?_⟩
  by_cases hdeleted : ∃ i, n ≤ i ∧ i < m ∧ (rounds i).gone r = true
  · exact Or.inr hdeleted
  · left
    have hkept : ∀ i, n ≤ i → i < m → (rounds i).gone r = false := by
      intro i hi hlt
      rw [← Bool.not_eq_true]
      exact fun hgone => hdeleted ⟨i, hi, hlt, hgone⟩
    obtain ⟨row', hrow'⟩ := Option.isSome_iff_exists.mp
      (row_after (w := World.launch statementTimeout history) hm
        (by rw [show _ = some row from hrow]; rfl) hkept)
    exact ⟨row', hrow', row_closed (hok n) (hok m) (after_reaches _ rounds hm) hnew hrow hstatus
      hphase hrow'⟩

/-- One iteration a minute; from the seventh on every connection is lost. -/
def lostLater (n : Nat) : Round :=
  { quietIteration (60000000 * (n + 1)) with
    replies := fun _ => { smoothReplies with statusBad := decide (6 ≤ n) }
    gone := fun _ => false }

/-- The clock of this run goes on. -/
theorem lostLater_clock : ClockRuns lostLater := by
  intro T n
  refine ⟨max n T.toNat, le_max_left _ _, ?_⟩
  show T ≤ 60000000 * (((max n T.toNat : Nat) : Int) + 1)
  omega

/-- Every connection of it is lost from the seventh round on, so every query is answered. -/
theorem lostLater_answers (w : World) : ServerAnswers w lostLater := by
  intro k n _
  exact ⟨max n 6, le_max_left _ _, fun l hl =>
    Or.inl (decide_eq_true ((le_max_right n 6).trans hl))⟩

/-- No query is left on a live connection, so no wait needs time. -/
theorem lostLater_time (w : World) : WaitsHaveTime w lostLater := by
  intro k n hlive
  have hlost : ((lostLater (max n 6)).replies k).statusBad = true :=
    decide_eq_true (le_max_right n 6)
  rw [(hlive (max n 6) (le_max_left n 6)).2] at hlost
  cases hlost

/-- The theorem at the first run of a job of every minute. -/
theorem runs_end_lostLater :
    ∃ row, ((World.launch defaultTimeout emptyHistory).after lostLater 3).history.runs.lookup 1 =
        some row ∧ row.status = .starting ∧
      ∃ m, 3 ≤ m ∧ ∃ row',
        ((World.launch defaultTimeout emptyHistory).after lostLater m).history.runs.lookup 1 =
          some row' ∧ row'.status.isFinal = true := by
  have hopen : (((World.launch defaultTimeout emptyHistory).after lostLater 3).history.runs.lookup
      1).any (fun row => decide (row.status = .starting)) = true := by
    decide +kernel
  rw [Option.any_eq_true] at hopen
  obtain ⟨row, hrow, hstarting⟩ := hopen
  have hstatus := of_decide_eq_true hstarting
  obtain ⟨m, hm, hfinal | ⟨i, -, -, hgone⟩⟩ := runs_end defaultTimeout emptyHistory lostLater
    lostLater_clock (lostLater_answers _) (lostLater_time _) 3 1 row (by decide) hrow
    (by rw [hstatus]; rfl)
  · exact ⟨row, hrow, hstatus, m, hm, hfinal⟩
  · cases hgone

/-! ### Every queued run is started -/

/-- The steps of an iteration other than its pass; it reloads from its own source. -/
def IterationInput.Around (input : IterationInput) : Label → Prop
  | .reload source _ => source = input.source
  | .startPending _ => False
  | _ => True

/-- **Iterations.**  What holds up to the pass of an iteration, what follows from it after the
    pass, and is kept from there on. -/
theorem loopIteration_phases {P Q : World → Prop} {input : IterationInput}
    (hbefore : ∀ w l, input.Around l → P w → P (w.step l))
    (hpass : ∀ w, P w → Q (w.startPending input.currentTime))
    (hafter : ∀ w l, input.Around l → Q w → Q (w.step l)) {w : World} (h : P w) :
    Q (w.loopIteration input) := by
  -- the top: an invalidation, a SIGHUP, a reload
  have hinvalidate : P (if input.invalidated then w.step .invalidate else w) := by
    split
    · exact hbefore w .invalidate trivial h
    · exact h
  rw [loopIteration_eq]
  have hrefreshed : P (w.refreshed input) := by
    unfold World.refreshed
    dsimp only
    generalize (if input.invalidated then w.step .invalidate else w) = w at hinvalidate
    have hsighup : P (input.sighup.elim w fun statementTimeout =>
        w.step (.sighup statementTimeout)) := by
      cases input.sighup with
      | some statementTimeout => exact hbefore w (.sighup statementTimeout) trivial hinvalidate
      | none => exact hinvalidate
    generalize (input.sighup.elim w fun statementTimeout =>
      w.step (.sighup statementTimeout)) = w at hsighup
    split
    · exact hbefore w (.reload input.source input.currentTime) rfl hsighup
    · exact hsighup
  have hwaited : Q (((w.refreshed input).startPending input.currentTime).waitForEvent
      input.wait) :=
    hafter _ (.wait input.wait) trivial (hpass _ hrefreshed)
  generalize ((w.refreshed input).startPending input.currentTime).waitForEvent input.wait = w'
    at hwaited
  generalize (w.refreshed input).tasks.keys = jobIds
  -- the turns of the tasks, one by one
  induction jobIds generalizing w' with
  | nil => exact hwaited
  | cons jobId jobIds ih =>
    exact ih _ (hafter w' (.manage jobId input.manageTime (input.gap jobId)
      (input.replies jobId)) trivial hwaited)

/-- **Rounds.**  Likewise for a round, whose deletion comes last. -/
theorem round_phases {P Q : World → Prop} {r : Round}
    (hbefore : ∀ w l, r.Around l → P w → P (w.step l))
    (hpass : ∀ w, P w → Q (w.startPending r.currentTime))
    (hafter : ∀ w l, r.Around l → Q w → Q (w.step l)) {w : World} (h : P w) : Q (w.round r) :=
  hafter _ (.deleteRuns r.gone) trivial (loopIteration_phases hbefore hpass hafter h)

/-- A run of the job waits or is about to start, or one has been started since the count of the
    runs was `c`. -/
structure World.Queued (k c : Int) (w : World) : Prop where
  accounted : w.Accounted
  loaded : (getCronJob w.jobs k).isSome = true
  since : c ≤ w.insertedFor k
  queued : 0 < w.queue k ∨ c < w.insertedFor k

/-- What is cut off a queue leaves some of it. -/
theorem truncated_lt {w : World} {k : Int} (l : Label) (h : 0 < w.queue k) :
    w.truncated k l < w.queue k := by
  unfold World.truncated
  cases l with
  | manage jobId currentTime gap io =>
    dsimp only
    split
    · cases hlookup : w.tasks.lookup k with
      | none => exact h
      | some task =>
        rw [queue_of_lookup hlookup] at h ⊢
        show task.excess < task.queued
        unfold CronTask.excess
        split
        · rename_i hcut
          rw [CronTask.queued, hcut.1, if_neg (by decide)]
          unfold maxPendingTasks
          omega
        · exact h
    · exact h
  | _ => exact h

/-- **A step** leaves the queue, or starts a run. -/
theorem queued_step {k c : Int} {w : World} {l : Label} (hkeeps : l.keepsLoaded k)
    (h : w.Queued k c) : (w.step l).Queued k c := by
  obtain ⟨entries, htrace⟩ := trace_step w l
  have hinserted := insertedFor_append k htrace
  have hsince := h.since
  refine ⟨h.accounted.step l, loaded_step h.loaded l hkeeps, by omega, ?_⟩
  rcases h.queued with hqueue | hstarted
  · have hbalance := queue_step h.accounted h.loaded l hkeeps
    have hincrements := increments_nonneg w k l
    have htruncated := truncated_lt l hqueue
    omega
  · omega

/-- **START inserts a row** for a job that is loaded. -/
theorem start_inserts {w : World} (hok : WorldOk w) (input : IterationInput) {k : Int}
    {task : CronTask} (hlookup : w.tasks.lookup k = some task) (hstate : task.state = .start)
    (hloaded : (getCronJob (w.loopIteration input).jobs k).isSome = true) :
    w.insertedFor k < (w.loopIteration input).insertedFor k := by
  obtain ⟨w', t, hturn⟩ := iteration_turn w input hlookup
  -- the steps before its turn leave the task in START
  have hsame : t.state = .start := by
    rcases hturn.run with hidles | ⟨hconnected, -⟩
    · exact hidles.sameRun.state.trans hstate
    · rw [hstate] at hconnected
      exact absurd hconnected (by decide)
  obtain ⟨entries, hbefore⟩ := trace_reaches hturn.before
  obtain ⟨more, hafter⟩ := trace_reaches hturn.after
  have hok' : WorldOk w' := by
    obtain ⟨ls, hls⟩ := hturn.before
    rw [← hls]
    exact Machine.run_induction (fun _ l h => h.step l) ls hok
  rw [hturn.jobs, ← (hok'.tasks k t hturn.lookup).keyed] at hloaded
  -- the turn of START inserts a row
  have hone : 1 ≤ inserts
      (w'.turn t input.manageTime (input.gap k) (input.replies k)).calls := by
    rcases (turn_outcome w' t input.manageTime (input.gap k) (input.replies k)).insertion with
      ⟨job, rest, -, -, hcalls, -⟩ | ⟨hnot, -⟩
    · rw [hcalls, inserts, List.countP_cons]
      have hinsert : ∀ (run jobId : Int) (database userName : CString) (startTime : Int),
          (Call.insertRun run jobId database userName startTime).isInsert = true :=
        fun _ _ _ _ _ => rfl
      rw [if_pos (hinsert _ _ _ _ _)]
      omega
    · exact absurd ⟨hsame, hloaded⟩ hnot
  -- and nothing else of the iteration takes one away
  have htrace : (w'.manage k input.manageTime (input.gap k) (input.replies k)).trace =
      w'.trace ++ (w'.turn t input.manageTime (input.gap k) (input.replies k)).entries k
        input.manageTime := by
    rw [manage_eq hturn.lookup]
  have hturned := insertedFor_append k htrace
  rw [countP_entries] at hturned
  have hgrows := insertedFor_append k hbefore
  have hgrows' := insertedFor_append k hafter
  omega

/-- **WAITING starts the next run** of a job that is loaded. -/
theorem waiting_starts {w : World} (h : w.Accounted) (input : IterationInput) {k : Int}
    {task : CronTask} (hlookup : w.tasks.lookup k = some task) (hstate : task.state = .waiting)
    (hpending : 0 < task.pendingRunCount)
    (hloaded : (getCronJob (w.loopIteration input).jobs k).isSome = true) :
    ∃ task', (w.loopIteration input).tasks.lookup k = some task' ∧ task'.state = .start := by
  obtain ⟨w', t, hturn⟩ := iteration_turn w input hlookup
  have hsame : t.state = .waiting := by
    rcases hturn.run with hidles | ⟨hconnected, -⟩
    · exact hidles.sameRun.state.trans hstate
    · rw [hstate] at hconnected
      exact absurd hconnected (by decide)
  have haccounted' : w'.Accounted := by
    obtain ⟨ls, hls⟩ := hturn.before
    rw [← hls]
    exact Machine.run_induction (fun _ l h => h.step l) ls h
  -- its job is loaded, so the task is active
  rw [hturn.jobs, ← (haccounted'.ok.tasks k t hturn.lookup).keyed] at hloaded
  have hactive := (haccounted'.active k t hturn.lookup).mpr hloaded
  have hcount : ¬t.pendingRunCount = 0 := by
    have := hturn.queue
    omega
  obtain ⟨job, hjob⟩ := Option.isSome_iff_exists.mp hloaded
  have hwaits : w'.turn t input.manageTime (input.gap k) (input.replies k) = manageWaiting t := by
    rw [World.turn, World.context, hjob, manageCronTask, hsame]
  refine ⟨{ t with pendingRunCount := t.pendingRunCount - 1, state := .start }, ?_, rfl⟩
  rw [hturn.final, hwaits, manageWaiting, if_neg (by simp [hactive]), if_neg hcount]
  rfl

/-- What waits in a queue waits, until a run is started. -/
theorem queued_run {w : World} {rounds : Nat → Round} {k c : Int} {n : Nat}
    (hkeeps : ∀ m, n ≤ m → (Label.reload (rounds m).source 0).keepsLoaded k)
    (h : (w.after rounds n).Queued k c) : ∀ m, n ≤ m → (w.after rounds m).Queued k c := by
  intro m hm
  induction hm with
  | refl => exact h
  | @step m hm ih =>
    have hstep : ∀ v l, (rounds m).Around l → World.Queued k c v → World.Queued k c (v.step l) := by
      intro v l hl hv
      refine queued_step ?_ hv
      cases l with
      | reload source currentTime =>
        rw [show source = (rounds m).source from hl]
        exact hkeeps m hm
      | _ => trivial
    exact round_phases hstep
      (fun v hv => queued_step (l := .startPending (rounds m).currentTime) trivial hv) hstep ih

/-- **No queue waits forever.** -/
theorem queued_leads {statementTimeout : StatementTimeout} {history : History}
    {rounds : Nat → Round} (hclock : ClockRuns rounds)
    (hserver : ServerAnswers (World.launch statementTimeout history) rounds)
    (htime : WaitsHaveTime (World.launch statementTimeout history) rounds) {k c : Int} {n : Nat}
    (hkeeps : ∀ m, n ≤ m → (Label.reload (rounds m).source 0).keepsLoaded k)
    (h : ((World.launch statementTimeout history).after rounds n).Queued k c) :
    ∃ m, n ≤ m ∧ c < ((World.launch statementTimeout history).after rounds m).insertedFor k := by
  by_contra hnever
  have hqueued := queued_run hkeeps h
  have hnone : ∀ m, n ≤ m →
      ¬c < ((World.launch statementTimeout history).after rounds m).insertedFor k :=
    fun m hm hlt => hnever ⟨m, hm, hlt⟩
  -- at the next time in WAITING a run is taken from the queue, and then inserted
  obtain ⟨m, hm, hphase⟩ := phase_leads hclock hserver htime k n trivial
  have hm₁ : n ≤ m + 1 := Nat.le_succ_of_le hm
  obtain ⟨task, hlookup⟩ := Option.isSome_iff_exists.mp
    ((hqueued m hm).accounted.tracked k (hqueued m hm).loaded)
  have hwaiting : task.state = .waiting := by
    rw [phase_of_lookup hlookup] at hphase
    cases hs : task.state <;> rw [hs] at hphase <;>
      first | rfl | exact absurd hphase (by decide)
  have hpending : 0 < task.pendingRunCount := by
    have hpositive := (hqueued m hm).queued.resolve_right (hnone m hm)
    rw [queue_of_lookup hlookup, CronTask.queued, hwaiting, if_neg (by decide)] at hpositive
    omega
  obtain ⟨task', hlookup', hstart⟩ := waiting_starts (hqueued m hm).accounted
    (rounds m).toIterationInput hlookup hwaiting hpending (hqueued (m + 1) hm₁).loaded
  have hmore := start_inserts (hqueued (m + 1) hm₁).accounted.ok
    (rounds (m + 1)).toIterationInput hlookup' hstart
    (hqueued (m + 2) (Nat.le_succ_of_le hm₁)).loaded
  exact hnone (m + 2) (Nat.le_succ_of_le hm₁) (lt_of_le_of_lt (hqueued (m + 1) hm₁).since hmore)

/-- The accounts are kept in every round. -/
theorem accounted_after (statementTimeout : StatementTimeout) (history : History)
    (rounds : Nat → Round) (n : Nat) :
    ((World.launch statementTimeout history).after rounds n).Accounted := by
  obtain ⟨ls, hls⟩ := after_run statementTimeout history rounds n
  rw [← hls]
  exact Machine.run_induction (fun _ l h => h.step l) ls (accounted_launch _ _)

/-- **Every queued run is started.**  Let the worker iterate forever, as above.  If a run of a job
    waits in its queue, or is about to start, and every later reload finds the job, then a row is
    inserted for the job some time. -/
theorem queued_starts (statementTimeout : StatementTimeout) (history : History)
    (rounds : Nat → Round) (hclock : ClockRuns rounds)
    (hserver : ServerAnswers (World.launch statementTimeout history) rounds)
    (htime : WaitsHaveTime (World.launch statementTimeout history) rounds) :
    let w := (World.launch statementTimeout history).after rounds
    ∀ n k, (getCronJob (w n).jobs k).isSome = true → 0 < (w n).queue k →
      (∀ m, n ≤ m → (Label.reload (rounds m).source 0).keepsLoaded k) →
        ∃ m, n ≤ m ∧ (w n).insertedFor k < (w m).insertedFor k := by
  intro w n k hloaded hqueue hkeeps
  exact queued_leads hclock hserver htime hkeeps
    ⟨accounted_after statementTimeout history rounds n, hloaded, le_refl _, Or.inl hqueue⟩

/-- The theorem at a job of every minute, whose first run is about to start. -/
theorem queued_starts_lostLater :
    ((World.launch defaultTimeout emptyHistory).after lostLater 2).insertedFor 7 = 0 ∧
      ∃ m, 2 ≤ m ∧ 0 < ((World.launch defaultTimeout emptyHistory).after lostLater m).insertedFor
        7 := by
  have hnone :
      ((World.launch defaultTimeout emptyHistory).after lostLater 2).insertedFor 7 = 0 := by
    decide +kernel
  have hkeeps : ∀ m, 2 ≤ m → (Label.reload (lostLater m).source 0).keepsLoaded 7 := by
    intro m _
    show (getCronJob (loadJobsList false true (oneRow minutesRow).table) 7).isSome = true
    decide +kernel
  have hstarts := queued_starts defaultTimeout emptyHistory lostLater lostLater_clock
    (lostLater_answers _) (lostLater_time _) 2 7 (by decide +kernel) (by decide +kernel) hkeeps
  rw [hnone] at hstarts
  exact ⟨hnone, hstarts⟩

end NedoCron
