import NedoCron.Conservation

namespace NedoCron

/-!
# nedo_cron — how long a queue gets

The scheduler adds runs to the queue of a task in any state, and `ManageCronTask` cuts a queue to
`maxPendingTasks` in one step only, after a run.

* `World.QueuesBounded` — no queue is longer than `maxPendingTasks`;
* `World.QueuesFit` — a pass adds to each queue no more than fits until the end of the iteration;
* `queuesBounded_iteration_iff` — one iteration of the loop;
* `queuesBounded_iff` — every run of iterations.
-/

/-! ### Turns -/

/-- Outside of WAITING and DONE a turn leaves the queue alone. -/
theorem QueueChange.same {task task' : CronTask} (h : QueueChange task task')
    (hwaiting : task.state ≠ .waiting) (hdone : task.state ≠ .done)
    (hreceiving : task.state ≠ .receiving) : task'.pendingRunCount = task.pendingRunCount := by
  cases h with
  | kept h => exact h
  | taken hstate => exact absurd hstate hwaiting
  | cut hstate => exact absurd hstate (not_or.mpr ⟨hdone, hreceiving⟩)

/-- In WAITING a run leaves the queue, if there is one. -/
theorem manageWaiting_pending {task task' : CronTask} (hactive : task.isActive = true)
    (hkept : (manageWaiting task).fate = .kept task') :
    task'.pendingRunCount =
      if task.pendingRunCount = 0 then 0 else task.pendingRunCount - 1 := by
  unfold manageWaiting at hkept
  rw [if_neg (by simp [hactive])] at hkept
  split at hkept
  · rename_i hzero
    cases hkept
    rw [if_pos hzero, hzero]
  · rename_i hne
    cases hkept
    rw [if_neg hne]

/-- The runs that may wait for a task at its turn: all that were due are cut to the limit in DONE,
    and one is started in WAITING. -/
def CronTask.Fits (task : CronTask) : Prop :=
  task.isActive = true → task.state ≠ .done →
    task.pendingRunCount ≤ maxPendingTasks + if task.state = .waiting then 1 else 0

/-- **The queue after a turn** is within the limit exactly if it has fitted before. -/
theorem turn_bounded_iff {w : World} (h : w.Accounted) {k : Int} {task : CronTask}
    (hlookup : w.tasks.lookup k = some task) (currentTime : Int) (gap : Nat) (io : Replies) :
    (∀ task', (w.turn task currentTime gap io).fate = .kept task' →
      task'.pendingRunCount ≤ maxPendingTasks) ↔ task.Fits := by
  have hok := h.ok.tasks k task hlookup
  have hactive := h.active k task hlookup
  have hnonneg := h.nonneg k task hlookup
  by_cases hdone : task.state = .done
  · -- the queue is cut in DONE
    have hturn : w.turn task currentTime gap io = manageDone task := by
      rw [World.turn, manageCronTask, hdone]
    refine iff_of_true (fun task' hkept => ?_) fun _ hnot => absurd hdone hnot
    rw [hturn, manageDone] at hkept
    cases hkept
    show (if _ then _ else _ : CronTask).pendingRunCount ≤ _
    split
    · exact le_refl maxPendingTasks
    · rename_i hmax
      exact le_of_not_gt hmax
  · cases hjob : getCronJob w.jobs task.jobId with
    | none =>
      -- a task whose job is gone is removed
      have hinactive : task.isActive = false := by
        rw [hjob] at hactive
        simpa using hactive
      refine iff_of_true (fun task' hkept => ?_) fun hcontra => absurd hcontra (by simp [hinactive])
      rcases @turn_unloaded (w.context task currentTime gap) task io hjob hinactive with
        ⟨-, hgone⟩ | ⟨t, -, -, -, hfrom⟩
      · exact absurd (hkept.symm.trans hgone) (by simp)
      · exact absurd hfrom hdone
    | some job =>
      have hisActive : task.isActive = true := hactive.mpr (by rw [hjob]; rfl)
      have hloaded : (getCronJob w.jobs k).isSome = true := by
        rw [← hok.keyed, hjob]
        rfl
      obtain ⟨task', hkept, -⟩ := h.turn hloaded hlookup currentTime gap io
      -- the queue after the turn decides
      have hafter : task'.pendingRunCount ≤ maxPendingTasks ↔ task.pendingRunCount ≤
          maxPendingTasks + if task.state = .waiting then 1 else 0 := by
        by_cases hwaiting : task.state = .waiting
        · have hturn : w.turn task currentTime gap io = manageWaiting task := by
            rw [World.turn, World.context, hjob, manageCronTask, hwaiting]
          rw [hturn] at hkept
          rw [manageWaiting_pending hisActive hkept, if_pos hwaiting]
          unfold maxPendingTasks
          split <;> omega
        · rw [((turn_outcome w task currentTime gap io).queue hkept).2.same hwaiting hdone
            hok.not_receiving, if_neg hwaiting, Int.add_zero]
      constructor
      · intro hbounded _ _
        exact hafter.mp (hbounded task' hkept)
      · intro hfits task'' hkept'
        obtain rfl := Fate.kept.inj (hkept.symm.trans hkept')
        exact hafter.mpr (hfits hisActive hdone)

/-! ### Iterations -/

/-- No queue is longer than the limit. -/
def World.QueuesBounded (w : World) : Prop :=
  ∀ k task, w.tasks.lookup k = some task → task.pendingRunCount ≤ maxPendingTasks

/-- The top of an iteration: invalidations, a changed configuration, and the reload. -/
def World.refreshed (w : World) (input : IterationInput) : World :=
  let w := if input.invalidated then w.step .invalidate else w
  let w := input.sighup.elim w fun statementTimeout => w.step (.sighup statementTimeout)
  if w.mustReload input.currentTime then w.reload input.source input.currentTime else w

/-- The scheduling pass of an iteration leaves each active task with no more runs than the limit,
    not counting the one that a free task starts; a task in DONE may have any number. -/
def World.QueuesFit (w : World) (input : IterationInput) : Prop :=
  ∀ k task, (w.refreshed input).tasks.lookup k = some task →
    task.isActive = true → task.state ≠ .done →
    task.pendingRunCount +
        (w.refreshed input).increments k (.startPending input.currentTime) ≤
      maxPendingTasks + if task.state = .waiting then 1 else 0

/-- An iteration in its parts: the top, the pass, the wait, and the turns. -/
theorem loopIteration_eq (w : World) (input : IterationInput) :
    w.loopIteration input =
      (((w.refreshed input).startPending input.currentTime).waitForEvent input.wait).manageAll
        (w.refreshed input).tasks.keys input.manageTime input.gap input.replies := by
  unfold World.refreshed World.loopIteration
  cases input.sighup <;> rfl

/-- The accounts are kept at the top of an iteration. -/
theorem World.Accounted.refreshed {w : World} (h : w.Accounted) (input : IterationInput) :
    (w.refreshed input).Accounted := by
  have hinvalidate : (if input.invalidated then w.step .invalidate else w).Accounted := by
    split
    · exact h.step .invalidate
    · exact h
  unfold World.refreshed
  dsimp only
  generalize (if input.invalidated then w.step .invalidate else w) = w at hinvalidate
  have hsighup : (input.sighup.elim w fun statementTimeout =>
      w.step (.sighup statementTimeout)).Accounted := by
    cases input.sighup with
    | some statementTimeout => exact hinvalidate.step (.sighup statementTimeout)
    | none => exact hinvalidate
  generalize (input.sighup.elim w fun statementTimeout =>
    w.step (.sighup statementTimeout)) = w at hsighup
  split
  · exact hsighup.step (.reload input.source input.currentTime)
  · exact hsighup

/-- Turns of other tasks leave a task alone. -/
theorem lookup_manageAll_of_not_mem {k : Int} {jobIds : List Int} (hk : k ∉ jobIds) (w : World)
    (currentTime : Int) (gap : Int → Nat) (replies : Int → Replies) :
    (w.manageAll jobIds currentTime gap replies).tasks.lookup k = w.tasks.lookup k := by
  induction jobIds generalizing w with
  | nil => rfl
  | cons jobId jobIds ih =>
    obtain ⟨hne, hk⟩ := not_or.mp fun h => hk (List.mem_cons.mpr h)
    show ((w.manage jobId currentTime _ _).manageAll jobIds currentTime gap
      replies).tasks.lookup k = _
    rw [ih hk, lookup_manage_ne hne]

/-- **`ManageCronTasks`** gives each task one turn, whatever the others do before it. -/
theorem lookup_manageAll {k : Int} {jobIds : List Int} (hk : k ∈ jobIds) (hnodup : jobIds.Nodup)
    {w : World} (h : w.Accounted) (currentTime : Int) (gap : Int → Nat)
    (replies : Int → Replies) :
    ∃ w' : World, w'.Accounted ∧ w'.tasks.lookup k = w.tasks.lookup k ∧
      (w.manageAll jobIds currentTime gap replies).tasks.lookup k =
        (w'.manage k currentTime (gap k) (replies k)).tasks.lookup k := by
  induction jobIds generalizing w with
  | nil => exact absurd hk List.not_mem_nil
  | cons jobId jobIds ih =>
    obtain ⟨hnot, hnodup⟩ := List.nodup_cons.mp hnodup
    by_cases heq : k = jobId
    · subst heq
      exact ⟨w, h, rfl, lookup_manageAll_of_not_mem hnot _ currentTime gap replies⟩
    · have hstep : (w.manage jobId currentTime (gap jobId) (replies jobId)).Accounted :=
        h.step (.manage jobId currentTime (gap jobId) (replies jobId))
      obtain ⟨w', hw', hsame, hlookup⟩ :=
        ih (List.mem_of_ne_of_mem heq hk) hnodup hstep
      exact ⟨w', hw', by rw [hsame, lookup_manage_ne heq], hlookup⟩

/-- The queues after all turns. -/
theorem manageAll_bounded_iff {w : World} (h : w.Accounted) {jobIds : List Int}
    (hnodup : jobIds.Nodup) (hall : ∀ k, (w.tasks.lookup k).isSome = true → k ∈ jobIds)
    (currentTime : Int) (gap : Int → Nat) (replies : Int → Replies) :
    (w.manageAll jobIds currentTime gap replies).QueuesBounded ↔
      ∀ k task, w.tasks.lookup k = some task → task.Fits := by
  have hturn : ∀ k task, w.tasks.lookup k = some task →
      ((∀ task', (w.manageAll jobIds currentTime gap replies).tasks.lookup k = some task' →
        task'.pendingRunCount ≤ maxPendingTasks) ↔ task.Fits) := by
    intro k task hlookup
    have hk := hall k (by rw [hlookup]; rfl)
    obtain ⟨w', hw', hsame, hafter⟩ := lookup_manageAll hk hnodup h currentTime gap replies
    rw [hlookup] at hsame
    rw [hafter, lookup_manage_self hsame, ← turn_bounded_iff hw' hsame currentTime (gap k)
      (replies k)]
    change (∀ task', Fate.task (w'.turn task currentTime (gap k) (replies k)).fate = some task' →
      _) ↔ _
    cases (w'.turn task currentTime (gap k) (replies k)).fate with
    | kept t => simp [Fate.task]
    | removed => simp [Fate.task]
  constructor
  · intro hbounded k task hlookup
    exact (hturn k task hlookup).mp fun task' hlookup' => hbounded k task' hlookup'
  · intro hfits k task' hlookup'
    cases hlookup : w.tasks.lookup k with
    | some task => exact (hturn k task hlookup).mpr (hfits k task hlookup) task' hlookup'
    | none =>
      -- no task is created by a turn
      by_cases hk : k ∈ jobIds
      · obtain ⟨w', -, hsame, hafter⟩ := lookup_manageAll hk hnodup h currentTime gap replies
        rw [hlookup] at hsame
        rw [hafter, manage_none hsame, hsame] at hlookup'
        exact absurd hlookup' (by simp)
      · rw [lookup_manageAll_of_not_mem hk, hlookup] at hlookup'
        exact absurd hlookup' (by simp)

/-- A wait may fail a run under way, for which the limit is the same. -/
theorem awaitTask_fits (io : WaitReplies) (k : Int) (task : CronTask) :
    (awaitTask io k task).Fits ↔ task.Fits := by
  rcases awaitTask_cases io k task with ⟨ready, heq⟩ | ⟨hstate, fmt, args, pollingStatus, heq⟩
  · rw [heq]
    exact Iff.rfl
  · rw [heq]
    have hnot : ∀ state, state = .waiting ∨ state = .done → task.state ≠ state := by
      rintro state h rfl
      rcases h with h | h <;> (rw [h] at hstate; exact absurd hstate (by decide))
    unfold CronTask.Fits
    rw [if_neg (hnot .waiting (Or.inl rfl)), if_neg (by simp [CronTask.fail])]
    constructor
    · exact fun h hactive _ => h hactive (by simp [CronTask.fail])
    · exact fun h hactive _ => h hactive (hnot .done (Or.inr rfl))

/-- **One iteration** ends with no queue longer than the limit if and only if its scheduling pass
    leaves every queue short enough. -/
theorem queuesBounded_iteration_iff {w : World} (h : w.Accounted) (input : IterationInput) :
    (w.loopIteration input).QueuesBounded ↔ w.QueuesFit input := by
  have hrefreshed := h.refreshed input
  rw [loopIteration_eq, World.QueuesFit]
  generalize w.refreshed input = w at hrefreshed
  have hwaited : ((w.startPending input.currentTime).waitForEvent input.wait).Accounted :=
    (hrefreshed.step (.startPending input.currentTime)).step (.wait input.wait)
  -- the task of a job just before its turn
  have hlookup : ∀ k, ((w.startPending input.currentTime).waitForEvent input.wait).tasks.lookup k =
      ((w.tasks.lookup k).map (schedulePendingTask w.jobs
        (initLastMinute w.lastMinute input.currentTime) input.currentTime)).map fun task =>
          if (w.startPending input.currentTime).waitTimeout input.wait = 0 then task.unready
          else awaitTask input.wait k task.unready := by
    intro k
    rw [lookup_wait, lookup_startPending]
  have hall : ∀ k, (((w.startPending input.currentTime).waitForEvent input.wait).tasks.lookup
      k).isSome = true → k ∈ w.tasks.keys := by
    intro k hk
    rw [hlookup, Option.isSome_map, Option.isSome_map] at hk
    exact AList.mem_keys.mpr (AList.lookup_isSome.mp hk)
  rw [manageAll_bounded_iff hwaited (AList.keys_nodup w.tasks) hall]
  -- a task fits before its turn if it fits after the pass
  have hfits : ∀ k task, w.tasks.lookup k = some task →
      ((if (w.startPending input.currentTime).waitTimeout input.wait = 0 then
          (schedulePendingTask w.jobs (initLastMinute w.lastMinute input.currentTime)
            input.currentTime task).unready
        else awaitTask input.wait k (schedulePendingTask w.jobs
          (initLastMinute w.lastMinute input.currentTime) input.currentTime task).unready).Fits ↔
        (task.isActive = true → task.state ≠ .done →
          task.pendingRunCount + w.increments k (.startPending input.currentTime) ≤
            maxPendingTasks + if task.state = .waiting then 1 else 0)) := by
    intro k task htask
    have hincrements : w.increments k (.startPending input.currentTime) =
        passIncrements w.jobs (initLastMinute w.lastMinute input.currentTime) input.currentTime
          task := by
      rw [World.increments, htask]
    have hpending := schedulePendingTask_pending w.jobs
      (initLastMinute w.lastMinute input.currentTime) input.currentTime task
    obtain ⟨pending, next, heq⟩ := schedulePendingTask_eq w.jobs
      (initLastMinute w.lastMinute input.currentTime) input.currentTime task
    rw [hincrements, ← hpending, heq]
    split
    · exact Iff.rfl
    · rw [awaitTask_fits]
      exact Iff.rfl
  constructor
  · intro hbounded k task htask
    refine (hfits k task htask).mp (hbounded k _ ?_)
    rw [hlookup, htask]
    rfl
  · intro hqueues k task' htask'
    rw [hlookup] at htask'
    obtain ⟨_, hmap, rfl⟩ := Option.map_eq_some_iff.mp htask'
    obtain ⟨task, htask, rfl⟩ := Option.map_eq_some_iff.mp hmap
    exact (hfits k task htask).mpr (hqueues k task htask)

/-- **The queues are bounded**: along every run of iterations, no queue is longer than the limit at
    the end of any iteration if and only if every scheduling pass leaves each active task with no
    more runs than the limit, one more if it is free, and any number if it is in DONE. -/
theorem queuesBounded_iff (statementTimeout : StatementTimeout) (history : History)
    (inputs : List IterationInput) :
    Machine.Guarded World.loopIteration (fun w input => (w.loopIteration input).QueuesBounded)
        (World.launch statementTimeout history) inputs ↔
      Machine.Guarded World.loopIteration World.QueuesFit
        (World.launch statementTimeout history) inputs := by
  have haccounted : Machine.Guarded World.loopIteration (fun w _ => w.Accounted)
      (World.launch statementTimeout history) inputs := by
    refine Machine.guarded_of_invariant (fun w input h => ?_) inputs
      (accounted_launch statementTimeout history)
    obtain ⟨ls, -, hrun⟩ := loopIteration_reaches w input
    rw [← hrun]
    exact Machine.run_induction (fun _ l h => h.step l) ls h
  constructor
  · intro h
    exact Machine.guarded_mono (fun w input hboth =>
      (queuesBounded_iteration_iff hboth.2 input).mp hboth.1) (Machine.guarded_and h haccounted)
  · intro h
    exact Machine.guarded_mono (fun w input hboth =>
      (queuesBounded_iteration_iff hboth.2 input).mpr hboth.1) (Machine.guarded_and h haccounted)

/-- The row of a job that runs every minute, without a star for the minute or the hour. -/
def minutesRow : JobRow :=
  { secondsRow (ascii "alice") (ascii "SELECT 1") with schedule := ascii "0-59 0-23 * * *" }

/-- An iteration in which libpq answers at once. -/
def quietIteration (now : Int) : IterationInput where
  currentTime := now
  invalidated := false
  sighup := none
  source := oneRow minutesRow
  wait := readyWait now
  manageTime := now
  gap _ := 0
  replies _ := smoothReplies

/-- After a step of the clock of half an hour, 29 runs wait behind the one that is started. -/
theorem not_queuesBounded :
    ¬Machine.Guarded World.loopIteration (fun w input => (w.loopIteration input).QueuesBounded)
      (World.launch defaultTimeout emptyHistory)
      [quietIteration 60000000, quietIteration 1860000000] := by
  intro h
  have hbounded : (((World.launch defaultTimeout emptyHistory).loopIteration
      (quietIteration 60000000)).loopIteration (quietIteration 1860000000)).QueuesBounded := h.2.1
  have hcount : ((((World.launch defaultTimeout emptyHistory).loopIteration
      (quietIteration 60000000)).loopIteration (quietIteration 1860000000)).tasks.lookup 7).any
        (fun task => decide (task.pendingRunCount = 29)) = true := by
    decide +kernel
  rw [Option.any_eq_true] at hcount
  obtain ⟨task, hlookup, hpending⟩ := hcount
  have hle := hbounded 7 task hlookup
  rw [of_decide_eq_true hpending] at hle
  exact absurd hle (by decide)

end NedoCron
