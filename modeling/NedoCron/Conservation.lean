import NedoCron.Removal

namespace NedoCron

/-!
# nedo_cron — conservation of due runs

Every run that a scheduling pass adds to the queue of a job is later inserted into the history,
or is about to start, or still waits in the queue, or was cut off when the queue had grown too
long at the end of a run.

* `World.increments`, `World.truncated` — what a step adds to the queue, and what it cuts off;
* `World.queue`, `World.insertedFor` — the runs waiting or about to start, and those inserted;
* `dueRuns_conserved` — the balance between them over every run of the worker.
-/

/-! ### The amounts -/

/-- How often one pass of `StartPendingTask` increments the counter. -/
def startPendingIncrements (schedule : CronSchedule) (clockStatus : ClockStatus)
    (lastMinute currentTime : Int) : Int :=
  let currentMinute := startOfMinute currentTime
  match clockStatus with
  | .progressed =>
    visitMinutes (fun m => shouldRunTask schedule m true true) currentMinute lastMinute 0
  | .jumpForward =>
    visitMinutes (fun m => shouldRunTask schedule m false true) currentMinute lastMinute 0 +
      if shouldRunTask schedule currentMinute true false then 1 else 0
  | .jumpBackward => if shouldRunTask schedule currentMinute true false then 1 else 0
  | .change => if shouldRunTask schedule currentMinute true true then 1 else 0

/-- How often `StartSecondIntervalTask` increments the counter. -/
def secondIntervalIncrements (schedule : CronSchedule) (currentTime : Int) (task : CronTask) :
    Int :=
  let nextRunTime :=
    if task.nextRunTime = 0 then
      timestampTzPlusMilliseconds currentTime (1000 * schedule.secondsInterval)
    else task.nextRunTime
  if timestampDifferenceExceeds nextRunTime currentTime 0 then
    if task.pendingRunCount = 0 then 1 else 0
  else 0

/-- How often a scheduling pass increments the counter of a task. -/
def passIncrements (jobs : Table Int CronJob) (lastMinute currentTime : Int) (task : CronTask) :
    Int :=
  let minutes := minutesPassed lastMinute currentTime
  match getCronJob jobs task.jobId with
  | none => 0
  | some job =>
    if job.schedule.seconds then secondIntervalIncrements job.schedule currentTime task
    else if minutes ≠ 0 then
      startPendingIncrements job.schedule (clockStatusOf minutes) lastMinute currentTime
    else 0

/-- How often a step increments the counter of the task of a job. -/
def World.increments (k : Int) (w : World) : Label → Int
  | .startPending currentTime =>
    match w.tasks.lookup k with
    | some task =>
      passIncrements w.jobs (initLastMinute w.lastMinute currentTime) currentTime task
    | none => 0
  | _ => 0

/-- What the DONE step cuts off the queue of a task. -/
def CronTask.excess (task : CronTask) : Int :=
  if task.state = .done ∧ task.pendingRunCount > maxPendingTasks then
    task.pendingRunCount - maxPendingTasks
  else 0

/-- What a step cuts off the queue of the task of a job. -/
def World.truncated (k : Int) (w : World) : Label → Int
  | .manage jobId _ _ _ =>
    if jobId = k then
      match w.tasks.lookup k with
      | some task => task.excess
      | none => 0
    else 0
  | _ => 0

/-- The runs of a task that wait or are about to start. -/
def CronTask.queued (task : CronTask) : Int :=
  task.pendingRunCount + if task.state = .start then 1 else 0

/-- The runs of a job that wait or are about to start. -/
def World.queue (w : World) (k : Int) : Int :=
  match w.tasks.lookup k with
  | some task => task.queued
  | none => 0

/-- `InsertRunDetailsStart`. -/
def Call.isInsert : Call → Bool
  | .insertRun _ _ _ _ _ => true
  | _ => false

/-- How often a run was inserted for a job. -/
def World.insertedFor (w : World) (k : Int) : Int :=
  w.trace.countP fun e => decide (e.jobId = k) && e.call.isInsert

/-! ### Scheduling passes -/

/-- One turn of the loop over the minutes. -/
theorem visitMinutes_turn (due : Int → Bool) {currentMinute virtTime : Int}
    (h : virtTime < currentMinute) (n : Int) :
    visitMinutes due currentMinute virtTime n =
      visitMinutes due currentMinute (timestampTzPlusMilliseconds virtTime (60 * 1000))
        (if due (timestampTzPlusMilliseconds virtTime (60 * 1000)) then n + 1 else n) := by
  rw [visitMinutes, if_pos h]

/-- The loop adds the same number to every counter. -/
theorem visitMinutes_add (due : Int → Bool) (currentMinute virtTime pendingRunCount : Int) :
    visitMinutes due currentMinute virtTime pendingRunCount =
      pendingRunCount + visitMinutes due currentMinute virtTime 0 := by
  have hshift : ∀ virtTime n m : Int, visitMinutes due currentMinute virtTime (n + m) =
      n + visitMinutes due currentMinute virtTime m := by
    intro virtTime n m
    induction virtTime, m using visitMinutes.induct due currentMinute with
    | case1 virtTime m hlt next ih =>
      have hcount : (if due next then n + m + 1 else n + m) =
          n + if due next then m + 1 else m := by
        split <;> omega
      rw [visitMinutes_turn due hlt, visitMinutes_turn due hlt m]
      show visitMinutes due currentMinute next (if due next then n + m + 1 else n + m) = _
      rw [hcount]
      exact ih
    | case2 virtTime m hge =>
      have hdone : ∀ c : Int, visitMinutes due currentMinute virtTime c = c := by
        intro c
        rw [visitMinutes, if_neg hge]
      rw [hdone, hdone]
  have h := hshift virtTime pendingRunCount 0
  rwa [Int.add_zero] at h

/-- The loop only counts upwards. -/
theorem visitMinutes_nonneg (due : Int → Bool) (currentMinute virtTime : Int) {n : Int}
    (h : 0 ≤ n) : 0 ≤ visitMinutes due currentMinute virtTime n := by
  induction virtTime, n using visitMinutes.induct due currentMinute with
  | case1 virtTime n hlt next ih =>
    rw [visitMinutes, if_pos hlt]
    apply ih
    split <;> omega
  | case2 virtTime n hge =>
    rw [visitMinutes, if_neg hge]
    exact h

/-- `StartPendingTask` adds what it counts. -/
theorem startPendingTask_pending (schedule : CronSchedule) (clockStatus : ClockStatus)
    (lastMinute currentTime : Int) (task : CronTask) :
    (startPendingTask schedule clockStatus lastMinute currentTime task).pendingRunCount =
      task.pendingRunCount +
        startPendingIncrements schedule clockStatus lastMinute currentTime := by
  cases clockStatus with
  | progressed => exact visitMinutes_add _ _ _ _
  | jumpForward =>
    unfold startPendingTask startPendingIncrements
    dsimp only
    rw [pendingRunCount_enqueueIf, visitMinutes_add, Int.add_assoc]
  | jumpBackward => exact pendingRunCount_enqueueIf _ _
  | change => exact pendingRunCount_enqueueIf _ _

/-- `StartSecondIntervalTask` adds what it counts. -/
theorem startSecondIntervalTask_pending (schedule : CronSchedule) (currentTime : Int)
    (task : CronTask) :
    (startSecondIntervalTask schedule currentTime task).pendingRunCount =
      task.pendingRunCount + secondIntervalIncrements schedule currentTime task := by
  unfold startSecondIntervalTask secondIntervalIncrements
  dsimp only
  by_cases hnext : task.nextRunTime = 0
  · rw [if_pos hnext, if_pos hnext]
    split
    · split <;> simp_all
    · exact (Int.add_zero _).symm
  · rw [if_neg hnext, if_neg hnext]
    split
    · split <;> simp_all
    · exact (Int.add_zero _).symm

/-- **A scheduling pass** adds what it counts. -/
theorem schedulePendingTask_pending (jobs : Table Int CronJob) (lastMinute currentTime : Int)
    (task : CronTask) :
    (schedulePendingTask jobs lastMinute currentTime task).pendingRunCount =
      task.pendingRunCount + passIncrements jobs lastMinute currentTime task := by
  unfold schedulePendingTask passIncrements
  dsimp only
  cases getCronJob jobs task.jobId with
  | none => exact (Int.add_zero _).symm
  | some job =>
    dsimp only
    split
    · exact startSecondIntervalTask_pending job.schedule currentTime task
    · split
      · exact startPendingTask_pending job.schedule _ lastMinute currentTime task
      · exact (Int.add_zero _).symm

/-- A pass takes nothing from a queue. -/
theorem passIncrements_nonneg (jobs : Table Int CronJob) (lastMinute currentTime : Int)
    (task : CronTask) : 0 ≤ passIncrements jobs lastMinute currentTime task := by
  have hloop : ∀ due, 0 ≤ visitMinutes due (startOfMinute currentTime) lastMinute 0 :=
    fun due => visitMinutes_nonneg due _ _ (le_refl 0)
  have hone : ∀ b : Bool, (0 : Int) ≤ if b then 1 else 0 := by decide
  unfold passIncrements
  dsimp only
  cases getCronJob jobs task.jobId with
  | none => exact le_refl 0
  | some job =>
    dsimp only
    split
    · -- a seconds job adds one run or none
      have hsecond : ∀ (b : Bool) (n : Int),
        0 ≤ if b then (if n = 0 then (1 : Int) else 0) else 0 := by
        intro b n
        split
        · split <;> decide
        · decide
      exact hsecond _ _
    · split
      · unfold startPendingIncrements
        cases clockStatusOf (minutesPassed lastMinute currentTime) with
        | progressed => exact hloop _
        | jumpForward => exact Int.add_nonneg (hloop _) (hone _)
        | jumpBackward => exact hone _
        | change => exact hone _
      · exact le_refl 0

/-- No step adds less than nothing. -/
theorem increments_nonneg (w : World) (k : Int) (l : Label) : 0 ≤ w.increments k l := by
  unfold World.increments
  cases l with
  | startPending currentTime =>
    dsimp only
    split
    · exact passIncrements_nonneg _ _ _ _
    · exact le_refl 0
  | _ => exact le_refl 0

theorem truncated_nonneg (w : World) (k : Int) (l : Label) : 0 ≤ w.truncated k l := by
  have hexcess : ∀ task : CronTask, 0 ≤ task.excess := by
    intro task
    unfold CronTask.excess
    split
    · omega
    · exact le_refl 0
  unfold World.truncated
  cases l with
  | manage jobId currentTime gap io =>
    dsimp only
    split
    · split
      · exact hexcess _
      · exact le_refl 0
    · exact le_refl 0
  | _ => exact le_refl 0

/-! ### Turns -/

/-- The runs inserted by the calls. -/
def inserts (calls : List Call) : Int := calls.countP Call.isInsert

theorem inserts_append (calls more : List Call) :
    inserts (calls ++ more) = inserts calls + inserts more := by
  unfold inserts
  rw [List.countP_append]
  omega

theorem inserts_uses (functions : List PqFunction) (conn : Option Nat) :
    inserts (uses functions conn) = 0 := by
  have hnone : (uses functions conn).countP Call.isInsert = 0 := by
    rw [List.countP_eq_zero]
    intro call hcall
    obtain ⟨f, -, rfl⟩ := List.mem_map.mp hcall
    exact Bool.false_ne_true
  unfold inserts
  rw [hnone]
  rfl

/-- Calls without the insertion of a run. -/
theorem inserts_of_plain {calls : List Call} (h : ∀ call ∈ calls, call.isPlain = true) :
    inserts calls = 0 := by
  have hnone : calls.countP Call.isInsert = 0 := by
    rw [List.countP_eq_zero]
    intro call hcall hinsert
    have hplain := h call hcall
    cases call with
    | insertRun runId jobId database userName startTime =>
      exact absurd hplain (by simp [Call.isPlain])
    | _ => exact absurd hinsert (by simp [Call.isInsert])
  unfold inserts
  rw [hnone]
  rfl

/-- A task that is neither before nor after the step in START, and is not cut. -/
theorem queued_eq {task task' : CronTask} (hpending : task'.pendingRunCount = task.pendingRunCount)
    (hstate : task.state ≠ .start) (hstate' : task'.state ≠ .start) :
    task'.queued = task.queued := by
  rw [CronTask.queued, CronTask.queued, if_neg hstate, if_neg hstate', hpending]

/-- Only the DONE step cuts anything off. -/
theorem excess_eq_zero {task : CronTask} (h : task.state ≠ .done) : task.excess = 0 :=
  if_neg fun hboth => h hboth.1

/-- A turn that keeps the queue: outside of START and DONE, and without an insertion. -/
theorem conserves_keep {task task' : CronTask} {calls : List Call}
    (hpending : task'.pendingRunCount = task.pendingRunCount) (hstate : task.state ≠ .start)
    (hdone : task.state ≠ .done) (hstate' : task'.state ≠ .start) (hcalls : inserts calls = 0) :
    ∃ task'', (Turn.keep task' calls).fate = .kept task'' ∧
      task''.queued + inserts (Turn.keep task' calls).calls = task.queued - task.excess := by
  refine ⟨task', rfl, ?_⟩
  show task'.queued + inserts calls = _
  rw [queued_eq hpending hstate hstate', excess_eq_zero hdone, hcalls]
  omega

/-- A turn of START inserts one run, and leaves START. -/
theorem conserves_start {task task' : CronTask} {insert connect : Call} {rest : List Call}
    (hpending : task'.pendingRunCount = task.pendingRunCount) (hstate : task.state = .start)
    (hstate' : task'.state ≠ .start) (hinsert : insert.isInsert = true)
    (hconnect : connect.isInsert = false) (hrest : inserts rest = 0) :
    ∃ task'', (Turn.keep task' (insert :: connect :: rest)).fate = .kept task'' ∧
      task''.queued + inserts (Turn.keep task' (insert :: connect :: rest)).calls =
        task.queued - task.excess := by
  have hone : inserts (insert :: connect :: rest) = 1 := by
    have hsplit := inserts_append [insert, connect] rest
    have hhead : inserts [insert, connect] = 1 := by simp [inserts, hinsert, hconnect]
    rw [hhead, hrest] at hsplit
    exact hsplit
  refine ⟨task', rfl, ?_⟩
  show task'.queued + inserts (insert :: connect :: rest) = _
  rw [hone, excess_eq_zero (by rw [hstate]; decide), CronTask.queued, CronTask.queued,
    if_neg hstate', if_pos hstate, hpending]
  omega

/-- **A turn** of an active task whose job is loaded keeps the task, and what it takes from the
    queue it inserts or cuts off. -/
theorem Outcome.conserves {context : StepContext} {io : Replies} {task : CronTask} {turn : Turn}
    (h : Outcome context io task turn) {jobId : Int} (hok : TaskOk jobId task)
    (hjob : context.job.isSome = true) (hactive : task.isActive = true) :
    ∃ task', turn.fate = .kept task' ∧
      task'.queued + inserts turn.calls = task.queued - task.excess := by
  have hbusy : task.state.isConnected = true → task.state ≠ .start ∧ task.state ≠ .done := by
    intro hstate
    constructor <;> (intro heq; rw [heq] at hstate; exact absurd hstate (by decide))
  have hplain : ∀ {calls : List Call}, (∀ call ∈ calls, call.isPlain = true) →
      inserts calls = 0 := inserts_of_plain
  cases h with
  | removed hstate hinactive =>
    rw [hinactive] at hactive
    exact absurd hactive (by simp)
  | idle hstate =>
    exact conserves_keep rfl (by rw [hstate]; decide) (by rw [hstate]; decide)
      (by rw [hstate]; decide) rfl
  | due hstate hpending =>
    -- the run leaves the queue and is about to start
    refine ⟨_, rfl, ?_⟩
    rw [excess_eq_zero (by rw [hstate]; decide), CronTask.queued, CronTask.queued, if_pos rfl,
      if_neg (by rw [hstate]; decide)]
    show task.pendingRunCount - 1 + 1 + 0 = _
    omega
  -- the three ends of START insert the run first, also when the connection fails
  | refused job hjob hstate fmt args =>
    exact conserves_start rfl hstate (by simp [CronTask.fail]) rfl rfl rfl
  | unusable job hjob hstate functions hcancel fmt args =>
    exact conserves_start rfl hstate (by simp [CronTask.fail]) rfl rfl (inserts_uses _ _)
  | opened job hjob hstate =>
    exact conserves_start rfl hstate (by simp) rfl rfl (inserts_uses _ _)
  -- a failed run gives nothing back to the queue, and takes nothing from it
  | failed hstate functions hcancel fmt args =>
    exact conserves_keep rfl (hbusy hstate).1 (hbusy hstate).2 (by simp [CronTask.fail])
      (inserts_uses _ _)
  | waits hstate functions hcancel pollingStatus =>
    have hconnected : task.state.isConnected = true := by
      rcases hstate with h | h <;> rw [h] <;> rfl
    exact conserves_keep rfl (hbusy hconnected).1 (hbusy hconnected).2 (hbusy hconnected).1
      (inserts_uses _ _)
  | connected hstate =>
    exact conserves_keep rfl (by rw [hstate]; decide) (by rw [hstate]; decide) (by simp)
      (by rw [inserts_append, inserts_uses]; rfl)
  | sent job hjob hstate =>
    exact conserves_keep rfl (by rw [hstate]; decide) (by rw [hstate]; decide) (by simp)
      (by rw [inserts_append, inserts_uses]; rfl)
  | unsent job hjob hstate fmt args =>
    exact conserves_keep rfl (by rw [hstate]; decide) (by rw [hstate]; decide)
      (by simp [CronTask.fail])
      (by rw [inserts_append, inserts_append, inserts_uses, inserts_uses]; rfl)
  | notCancelled hstate hoverdue functions hone fmt args cancelRequested runDeadline =>
    exact conserves_keep rfl (by rw [hstate]; decide) (by rw [hstate]; decide)
      (by simp [CronTask.fail]) (inserts_uses _ _)
  | runs hstate base functions more hchecked hcancel =>
    exact conserves_keep hchecked.pendingRunCount_eq (by rw [hstate]; decide)
      (by rw [hstate]; decide) (by rw [hchecked.state_eq, hstate]; decide) (inserts_uses _ _)
  | unread hstate base functions more hchecked hcancel fmt args =>
    exact conserves_keep hchecked.pendingRunCount_eq (by rw [hstate]; decide)
      (by rw [hstate]; decide) (by simp [CronTask.fail]) (inserts_uses _ _)
  | succeeded hstate base functions more hchecked hcancel hread =>
    exact conserves_keep hchecked.pendingRunCount_eq (by rw [hstate]; decide)
      (by rw [hstate]; decide) (by simp)
      (by
        rw [inserts_append, inserts_append, inserts_uses,
          hplain fun call hcall => isPlain_fetches hcall]
        rfl)
  | resultFailed hstate base functions more hchecked hcancel before after result busy hresults
      hbefore hfails fmt =>
    have hpending : (base.atResult result).pendingRunCount = task.pendingRunCount :=
      (base.atResult_pendingRunCount result).trans hchecked.pendingRunCount_eq
    exact conserves_keep hpending (by rw [hstate]; decide) (by rw [hstate]; decide)
      (by simp [CronTask.fail, CronTask.disconnected])
      (by
        rw [inserts_append, inserts_append, inserts_uses,
          hplain fun call hcall => isPlain_fetches hcall]
        rfl)
  | closed base hdone hbase =>
    -- the job is loaded, so the task comes to this branch by its own state
    obtain ⟨rfl, hstate⟩ : base = task ∧ task.state = .error := by
      refine hbase.resolve_right fun hgone => ?_
      rw [hgone.1] at hjob
      exact absurd hjob (by simp)
    have hcalls : inserts (manageError base io).calls = 0 :=
      hplain fun call hcall => isPlain_manageError hcall
    refine ⟨_, if_neg (by rw [hactive]; decide), ?_⟩
    rw [hcalls, excess_eq_zero hdone, Int.add_zero, Int.sub_zero]
    exact queued_eq rfl (by rw [hstate]; decide) (by simp)
  | reset hstate =>
    -- the queue is cut to its limit
    have hdone := hstate.resolve_right hok.not_receiving
    have hstart : task.state ≠ .start := by
      rw [hdone]
      decide
    by_cases hmax : task.pendingRunCount > maxPendingTasks
    · refine ⟨resetCronTaskAfterRun { task with pendingRunCount := maxPendingTasks }, ?_, ?_⟩
      · unfold manageDone
        rw [if_pos hmax]
        rfl
      · have hexcess : task.excess = task.pendingRunCount - maxPendingTasks := if_pos ⟨hdone, hmax⟩
        rw [hexcess, CronTask.queued, CronTask.queued, if_neg hstart,
          if_neg (by simp [resetCronTaskAfterRun])]
        show maxPendingTasks + 0 + 0 = _
        omega
    · refine ⟨resetCronTaskAfterRun task, ?_, ?_⟩
      · unfold manageDone
        rw [if_neg hmax]
        rfl
      · have hexcess : task.excess = 0 := if_neg fun hboth => hmax hboth.2
        rw [hexcess, CronTask.queued, CronTask.queued, if_neg hstart,
          if_neg (by simp [resetCronTaskAfterRun])]
        show task.pendingRunCount + 0 + 0 = _
        omega

/-- What a turn may do to the queue: WAITING takes a run out of it, and DONE cuts it. -/
inductive QueueChange (task task' : CronTask) : Prop where
  | kept (h : task'.pendingRunCount = task.pendingRunCount)
  | taken (hstate : task.state = .waiting) (hpending : task.pendingRunCount ≠ 0)
      (h : task'.pendingRunCount = task.pendingRunCount - 1)
  | cut (hstate : task.state = .done ∨ task.state = .receiving)
      (hpending : task.pendingRunCount > maxPendingTasks)
      (h : task'.pendingRunCount = maxPendingTasks)

/-- **A turn and the queue.**  The next time of a seconds job is left alone by every turn. -/
theorem Outcome.queue {context : StepContext} {io : Replies} {task : CronTask} {turn : Turn}
    (h : Outcome context io task turn) {task' : CronTask} (hkept : turn.fate = .kept task') :
    task'.nextRunTime = task.nextRunTime ∧ QueueChange task task' := by
  cases h with
  | removed hstate hactive => cases hkept
  | due hstate hpending =>
    cases hkept
    exact ⟨rfl, .taken hstate hpending rfl⟩
  | runs hstate base functions more hchecked hcancel =>
    cases hkept
    exact ⟨hchecked.nextRunTime_eq, .kept hchecked.pendingRunCount_eq⟩
  | unread hstate base functions more hchecked hcancel fmt args =>
    cases hkept
    exact ⟨hchecked.nextRunTime_eq, .kept hchecked.pendingRunCount_eq⟩
  | succeeded hstate base functions more hchecked hcancel hread =>
    cases hkept
    exact ⟨hchecked.nextRunTime_eq, .kept hchecked.pendingRunCount_eq⟩
  | resultFailed hstate base functions more hchecked hcancel before after result busy hresults
      hbefore hfails fmt =>
    cases hkept
    -- reading the result that fails touches no counter
    have hnext : (base.atResult result).nextRunTime = base.nextRunTime := by
      unfold CronTask.atResult
      split <;> rfl
    exact ⟨hnext.trans hchecked.nextRunTime_eq,
      .kept ((base.atResult_pendingRunCount result).trans hchecked.pendingRunCount_eq)⟩
  | closed base hdone hbase =>
    have hsame : base.nextRunTime = task.nextRunTime ∧
        base.pendingRunCount = task.pendingRunCount := by
      rcases hbase with ⟨rfl, -⟩ | ⟨-, rfl⟩ <;> exact ⟨rfl, rfl⟩
    obtain ⟨-, rfl⟩ := manageError_kept hkept
    exact ⟨hsame.1, .kept hsame.2⟩
  | reset hstate =>
    unfold manageDone at hkept
    split at hkept
    · -- the one step that cuts the queue
      rename_i hmax
      cases hkept
      exact ⟨rfl, .cut hstate hmax rfl⟩
    · cases hkept
      exact ⟨rfl, .kept rfl⟩
  | _ => cases hkept; exact ⟨rfl, .kept rfl⟩

/-- A turn does not make the queue negative. -/
theorem QueueChange.nonneg {task task' : CronTask} (h : QueueChange task task')
    (hpending : 0 ≤ task.pendingRunCount) : 0 ≤ task'.pendingRunCount := by
  cases h with
  | kept h => omega
  | taken hstate hne h => omega
  | cut hstate hmax h =>
    rw [h]
    decide

/-! ### The loaded jobs -/

/-- What a worker keeps of its queues: every loaded job has a task, and no queue is negative. -/
structure World.Accounted (w : World) : Prop where
  ok : WorldOk w
  active : w.ActiveMatches
  tracked : ∀ k, (getCronJob w.jobs k).isSome = true → (w.tasks.lookup k).isSome = true
  nonneg : ∀ k task, w.tasks.lookup k = some task → 0 ≤ task.pendingRunCount

/-- A new worker has nothing in its queues. -/
theorem accounted_launch (statementTimeout : StatementTimeout) (history : History) :
    (World.launch statementTimeout history).Accounted where
  ok := worldOk_launch statementTimeout history
  active k task h := absurd h (by simp [World.launch])
  tracked k h := absurd h (by simp [World.launch, getCronJob])
  nonneg k task h := absurd h (by simp [World.launch])

/-- The task of a loaded job is active, and its turn finds the job. -/
theorem World.Accounted.turn {w : World} (h : w.Accounted) {k : Int} {task : CronTask}
    (hjob : (getCronJob w.jobs k).isSome = true) (hlookup : w.tasks.lookup k = some task)
    (currentTime : Int) (gap : Nat) (io : Replies) :
    ∃ task', (w.turn task currentTime gap io).fate = .kept task' ∧
      task'.queued + inserts (w.turn task currentTime gap io).calls =
        task.queued - task.excess := by
  have hok := h.ok.tasks k task hlookup
  have hloaded : (getCronJob w.jobs task.jobId).isSome = true := by
    rw [hok.keyed]
    exact hjob
  exact (turn_outcome w task currentTime gap io).conserves hok hloaded
    ((h.active k task hlookup).mpr hloaded)

/-- A wait does not bring a task to START, nor away from it. -/
theorem awaitTask_start (io : WaitReplies) (k : Int) (task : CronTask) :
    (awaitTask io k task).state = .start ↔ task.state = .start := by
  rcases awaitTask_cases io k task with ⟨ready, heq⟩ | ⟨hstate, fmt, args, pollingStatus, heq⟩
  · rw [heq]
  · rw [heq]
    refine iff_of_false (by simp [CronTask.fail]) fun hstart => ?_
    rw [hstart] at hstate
    exact absurd hstate (by decide)

/-- No step makes a queue negative. -/
theorem pending_step {w : World}
    (h : ∀ k task, w.tasks.lookup k = some task → 0 ≤ task.pendingRunCount) (l : Label) (k : Int)
    (task' : CronTask) (hlookup : (w.step l).tasks.lookup k = some task') :
    0 ≤ task'.pendingRunCount := by
  rcases task_step hlookup with ⟨task, hold, hstep⟩ | ⟨source, currentTime, -, -, rfl⟩
  · have hpending := h k task hold
    cases hstep with
    | untouched l => exact hpending
    | marked source currentTime => exact hpending
    | scheduled currentTime =>
      rw [schedulePendingTask_pending]
      exact Int.add_nonneg hpending (passIncrements_nonneg _ _ _ _)
    | unready io => exact hpending
    | awaited io =>
      rw [awaitTask_pendingRunCount]
      exact hpending
    | turned currentTime gap io task' hkept =>
      exact ((turn_outcome w task currentTime gap io).queue hkept).2.nonneg hpending
  · exact le_refl 0

/-- No step takes the task of a job away that is loaded afterwards. -/
theorem World.Accounted.tracked_step {w : World} (h : w.Accounted) (l : Label) (k : Int)
    (hjob : (getCronJob (w.step l).jobs k).isSome = true) :
    ((w.step l).tasks.lookup k).isSome = true := by
  cases l with
  | reload source currentTime =>
    have hmem : k ∈ (w.reload source currentTime).jobs.keys :=
      AList.mem_keys.mpr (AList.lookup_isSome.mp hjob)
    rw [World.step, lookup_reload, if_pos hmem]
    rfl
  | startPending currentTime =>
    rw [World.step, lookup_startPending, Option.isSome_map]
    exact h.tracked k hjob
  | wait io =>
    rw [World.step, (wait_rest w io).1] at hjob
    rw [World.step, lookup_wait, Option.isSome_map]
    exact h.tracked k hjob
  | manage jobId currentTime gap io =>
    rw [World.step, jobs_manage] at hjob
    obtain ⟨task, hold⟩ := Option.isSome_iff_exists.mp (h.tracked k hjob)
    rw [World.step]
    by_cases hk : k = jobId
    · subst hk
      -- a task whose job is loaded is active, and survives its turn
      obtain ⟨task', hkept, -⟩ := h.turn hjob hold currentTime gap io
      change (manageCronTask (w.context task currentTime gap) task io).fate = _ at hkept
      rw [lookup_manage_self hold, hkept]
      rfl
    · rw [lookup_manage_ne hk, hold]
      rfl
  | _ => exact h.tracked k hjob

/-- Every step keeps the accounts. -/
theorem World.Accounted.step {w : World} (h : w.Accounted) (l : Label) :
    (w.step l).Accounted where
  ok := h.ok.step l
  active := activeMatches_step h.ok h.active l
  tracked := h.tracked_step l
  nonneg := pending_step h.nonneg l

/-! ### The balance -/

/-- A reload keeps the job loaded. -/
def Label.keepsLoaded (k : Int) : Label → Prop
  | .reload source _ =>
    (getCronJob (loadJobsList source.recoveryInProgress source.cronLoaded source.table)
      k).isSome = true
  | _ => True

/-- A job stays loaded if every reload finds it. -/
theorem loaded_step {w : World} {k : Int} (hjob : (getCronJob w.jobs k).isSome = true) (l : Label)
    (hkeeps : l.keepsLoaded k) : (getCronJob (w.step l).jobs k).isSome = true := by
  rcases jobs_step w l with hsame | ⟨source, currentTime, rfl, hloaded⟩
  · rw [hsame]
    exact hjob
  · exact hkeeps

/-- No queue is negative. -/
theorem queue_nonneg {w : World} (h : w.Accounted) (k : Int) : 0 ≤ w.queue k := by
  unfold World.queue
  cases hlookup : w.tasks.lookup k with
  | none => exact le_refl 0
  | some task =>
    have hnonneg := h.nonneg k task hlookup
    show 0 ≤ task.pendingRunCount + if task.state = .start then 1 else 0
    split <;> omega

/-- The runs inserted by the entries a step adds. -/
theorem insertedFor_append {w w' : World} {entries : List Entry} (k : Int)
    (htrace : w'.trace = w.trace ++ entries) :
    w'.insertedFor k = w.insertedFor k +
      (entries.countP fun e => decide (e.jobId = k) && e.call.isInsert : Nat) := by
  rw [World.insertedFor, World.insertedFor, htrace, List.countP_append]
  omega

/-- Entries that insert nothing for a job leave its count alone. -/
theorem insertedFor_eq {w w' : World} {entries : List Entry} {k : Int}
    (htrace : w'.trace = w.trace ++ entries)
    (hnone : ∀ e ∈ entries, e.jobId = k → e.call.isInsert = false) :
    w'.insertedFor k = w.insertedFor k := by
  have hzero : (entries.countP fun e => decide (e.jobId = k) && e.call.isInsert) = 0 := by
    rw [List.countP_eq_zero]
    intro e he hboth
    rw [Bool.and_eq_true, decide_eq_true_eq] at hboth
    exact absurd hboth.2 (by rw [hnone e he hboth.1]; decide)
  rw [insertedFor_append k htrace, hzero]
  omega

/-- The turn of a job's own task records its insertions for the job. -/
theorem countP_entries (turn : Turn) (k currentTime : Int) :
    ((turn.entries k currentTime).countP fun e => decide (e.jobId = k) && e.call.isInsert : Nat) =
      inserts turn.calls := by
  have hsame : (fun e : Entry => decide (e.jobId = k) && e.call.isInsert) ∘
      (fun call => ⟨k, turn.run, currentTime, call⟩) = Call.isInsert := by
    funext call
    simp
  unfold Turn.entries inserts
  rw [List.countP_map, hsame]

/-- The queue of a job with a task. -/
theorem queue_of_lookup {w : World} {k : Int} {task : CronTask}
    (h : w.tasks.lookup k = some task) : w.queue k = task.queued := by
  rw [World.queue, h]

/-- A step that leaves the record and the queue of a job alone. -/
theorem balanced_of_same {w w' : World} {k : Int} {task task' : CronTask}
    (hlookup : w.tasks.lookup k = some task) (hlookup' : w'.tasks.lookup k = some task')
    (hpending : task'.pendingRunCount = task.pendingRunCount)
    (hstart : task'.state = .start ↔ task.state = .start)
    (hinserted : w'.insertedFor k = w.insertedFor k) :
    w'.queue k + w'.insertedFor k = w.queue k + w.insertedFor k := by
  rw [queue_of_lookup hlookup, queue_of_lookup hlookup', CronTask.queued, CronTask.queued,
    hpending, hinserted]
  by_cases hstate : task.state = .start
  · rw [if_pos hstate, if_pos (hstart.mpr hstate)]
  · rw [if_neg hstate, if_neg fun h => hstate (hstart.mp h)]

/-- A scheduling pass adds to the queue what it counts as due. -/
theorem queue_startPending {w : World} {k : Int} {task : CronTask}
    (hlookup : w.tasks.lookup k = some task) (currentTime : Int) :
    (w.startPending currentTime).queue k + (w.startPending currentTime).insertedFor k =
      w.queue k + w.insertedFor k + w.increments k (.startPending currentTime) := by
  have hlookup' := lookup_startPending w currentTime k
  rw [hlookup, Option.map_some] at hlookup'
  obtain ⟨pending, next, heq⟩ := schedulePendingTask_eq w.jobs
    (initLastMinute w.lastMinute currentTime) currentTime task
  have hcount := schedulePendingTask_pending w.jobs
    (initLastMinute w.lastMinute currentTime) currentTime task
  have hstate : (schedulePendingTask w.jobs (initLastMinute w.lastMinute currentTime)
      currentTime task).state = task.state := by rw [heq]
  have hincrements : w.increments k (.startPending currentTime) =
      passIncrements w.jobs (initLastMinute w.lastMinute currentTime) currentTime task := by
    rw [World.increments, hlookup]
  have hinserted : (w.startPending currentTime).insertedFor k = w.insertedFor k := rfl
  rw [queue_of_lookup hlookup, queue_of_lookup hlookup', CronTask.queued, CronTask.queued, hstate,
    hcount, hinserted, hincrements]
  omega

/-- A wait may fail a task, but not one in START, and leaves the queue alone. -/
theorem queue_wait {w : World} {k : Int} {task : CronTask}
    (hlookup : w.tasks.lookup k = some task) (io : WaitReplies) :
    (w.waitForEvent io).queue k + (w.waitForEvent io).insertedFor k =
      w.queue k + w.insertedFor k := by
  obtain ⟨entries, htrace, hentries⟩ := trace_wait w io
  have hlookup' := lookup_wait w io k
  rw [hlookup, Option.map_some] at hlookup'
  -- neither the wait nor its absence touches the queue
  have hqueue : ∀ b : Bool,
      (if b then task.unready else awaitTask io k task.unready).pendingRunCount =
        task.pendingRunCount ∧
      ((if b then task.unready else awaitTask io k task.unready).state = .start ↔
        task.state = .start) := by
    intro b
    cases b
    · exact ⟨awaitTask_pendingRunCount io k task.unready, awaitTask_start io k task.unready⟩
    · exact ⟨rfl, Iff.rfl⟩
  have hboth := hqueue (decide (w.waitTimeout io = 0))
  simp only [decide_eq_true_eq] at hboth
  have hinserted : (w.waitForEvent io).insertedFor k = w.insertedFor k := by
    refine insertedFor_eq htrace fun e he _ => ?_
    obtain ⟨-, conn, -, -, -, -, hcall⟩ := hentries e he
    rw [hcall]
    rfl
  exact balanced_of_same hlookup hlookup' hboth.1 hboth.2 hinserted

/-- What the turn of a loaded job's task takes from the queue it inserts or cuts off. -/
theorem queue_turn {w : World} (h : w.Accounted) {k : Int}
    (hjob : (getCronJob w.jobs k).isSome = true) {task : CronTask}
    (hlookup : w.tasks.lookup k = some task) (currentTime : Int) (gap : Nat) (io : Replies) :
    (w.manage k currentTime gap io).queue k + (w.manage k currentTime gap io).insertedFor k =
      w.queue k + w.insertedFor k - task.excess := by
  obtain ⟨task', hkept, hconserves⟩ := h.turn hjob hlookup currentTime gap io
  have hlookup' : (w.manage k currentTime gap io).tasks.lookup k = some task' := by
    rw [lookup_manage_self hlookup]
    change Fate.task (w.turn task currentTime gap io).fate = _
    rw [hkept]
    rfl
  have htrace : (w.manage k currentTime gap io).trace =
      w.trace ++ (w.turn task currentTime gap io).entries k currentTime := by
    rw [manage_eq hlookup]
  rw [queue_of_lookup hlookup, queue_of_lookup hlookup', insertedFor_append k htrace,
    countP_entries]
  omega

/-- The turn of another task leaves the queue and the record of a job alone. -/
theorem queue_other {w : World} {k jobId : Int} (hk : jobId ≠ k) {task : CronTask}
    (hlookup : w.tasks.lookup k = some task) (currentTime : Int) (gap : Nat) (io : Replies) :
    (w.manage jobId currentTime gap io).queue k +
        (w.manage jobId currentTime gap io).insertedFor k =
      w.queue k + w.insertedFor k := by
  have hlookup' : (w.manage jobId currentTime gap io).tasks.lookup k = some task := by
    rw [lookup_manage_ne (Ne.symm hk), hlookup]
  have hinserted : (w.manage jobId currentTime gap io).insertedFor k = w.insertedFor k := by
    cases hold : w.tasks.lookup jobId with
    | none => rw [manage_none hold]
    | some other =>
      have htrace : (w.manage jobId currentTime gap io).trace =
          w.trace ++ (w.turn other currentTime gap io).entries jobId currentTime := by
        rw [manage_eq hold]
      refine insertedFor_eq htrace fun e he heq => ?_
      obtain ⟨call, -, rfl⟩ := List.mem_map.mp he
      exact absurd heq hk
  exact balanced_of_same hlookup hlookup' rfl Iff.rfl hinserted

/-- **A step** of the worker, for a job that stays loaded. -/
theorem queue_step {w : World} (h : w.Accounted) {k : Int}
    (hjob : (getCronJob w.jobs k).isSome = true) (l : Label) (hkeeps : l.keepsLoaded k) :
    (w.step l).queue k + (w.step l).insertedFor k =
      w.queue k + w.insertedFor k + (w.increments k l - w.truncated k l) := by
  obtain ⟨task, hlookup⟩ := Option.isSome_iff_exists.mp (h.tracked k hjob)
  cases l with
  | invalidate => exact (Int.add_zero _).symm
  | sighup statementTimeout => exact (Int.add_zero _).symm
  | deleteRuns gone => exact (Int.add_zero _).symm
  | reload source currentTime =>
    -- the task of a job that is still loaded is only marked
    have hmem : k ∈ (w.reload source currentTime).jobs.keys :=
      AList.mem_keys.mpr (AList.lookup_isSome.mp hkeeps)
    have hlookup' : (w.reload source currentTime).tasks.lookup k =
        some { task with isActive := true } := by
      rw [lookup_reload, if_pos hmem, hlookup]
      rfl
    rw [World.step, balanced_of_same hlookup hlookup' rfl Iff.rfl rfl]
    exact (Int.add_zero _).symm
  | startPending currentTime =>
    have htruncated : w.truncated k (.startPending currentTime) = 0 := rfl
    rw [World.step, queue_startPending hlookup, htruncated, Int.sub_zero]
  | wait io =>
    rw [World.step, queue_wait hlookup]
    exact (Int.add_zero _).symm
  | manage jobId currentTime gap io =>
    have hincrements : w.increments k (.manage jobId currentTime gap io) = 0 := rfl
    rw [World.step, hincrements]
    by_cases hk : jobId = k
    · subst hk
      have htruncated : w.truncated jobId (.manage jobId currentTime gap io) = task.excess := by
        rw [World.truncated, if_pos rfl, hlookup]
      rw [queue_turn h hjob hlookup, htruncated]
      omega
    · have htruncated : w.truncated k (.manage jobId currentTime gap io) = 0 := if_neg hk
      rw [queue_other hk hlookup, htruncated]
      exact (Int.add_zero _).symm

/-- **Due runs are conserved.**  In every state a worker reaches, no queue is negative, and a
    loaded job has a task, whose queue is empty when the reload has just created it.  Over every
    further run whose reloads keep the job, the increments of the queue are the runs inserted,
    the run about to start, the runs still waiting, and those cut off after a run. -/
theorem dueRuns_conserved (statementTimeout : StatementTimeout) (history : History)
    (ls : List Label) :
    let w := Machine.run World.step (World.launch statementTimeout history) ls
    (∀ k task, w.tasks.lookup k = some task → 0 ≤ task.pendingRunCount) ∧
    (∀ k, w.tasks.lookup k = none → ∀ source currentTime task,
      (w.step (.reload source currentTime)).tasks.lookup k = some task → task.queued = 0) ∧
    ∀ k, (getCronJob w.jobs k).isSome = true → ∃ task, w.tasks.lookup k = some task ∧
      ∀ ms, (∀ l ∈ ms, l.keepsLoaded k) →
        let w' := Machine.run World.step w ms
        ∃ task', w'.tasks.lookup k = some task' ∧
          task.queued + Machine.total World.step (World.increments k) w ms =
            (w'.insertedFor k - w.insertedFor k) +
              (if task'.state = .start then 1 else 0) + task'.pendingRunCount +
              Machine.total World.step (World.truncated k) w ms := by
  have haccounted : (Machine.run World.step (World.launch statementTimeout history) ls).Accounted :=
    Machine.run_induction (fun _ l h => h.step l) ls (accounted_launch statementTimeout history)
  generalize Machine.run World.step (World.launch statementTimeout history) ls = w at haccounted
  refine ⟨haccounted.nonneg, fun k hnone source currentTime task hlookup => ?_, fun k hjob => ?_⟩
  · change (w.reload source currentTime).tasks.lookup k = some task at hlookup
    rw [lookup_reload, hnone] at hlookup
    split at hlookup
    · obtain rfl := Option.some.inj hlookup
      rfl
    · exact absurd hlookup (by simp)
  · obtain ⟨task, hlookup⟩ := Option.isSome_iff_exists.mp (haccounted.tracked k hjob)
    refine ⟨task, hlookup, fun ms hkeeps => ?_⟩
    -- the queue and the insertions together change by increments less truncations
    have hguarded : Machine.Guarded World.step (fun _ l => l.keepsLoaded k) w ms :=
      Machine.guarded_of_forall w hkeeps
    have hkept := Machine.guarded_induction
      (P := fun w => w.Accounted ∧ (getCronJob w.jobs k).isSome = true)
      (fun _ l hl h => ⟨h.1.step l, loaded_step h.2 l hl⟩) hguarded ⟨haccounted, hjob⟩
    have hbalance := Machine.balance
      (P := fun w => w.Accounted ∧ (getCronJob w.jobs k).isSome = true)
      (V := fun w => w.queue k + w.insertedFor k)
      (fun _ l hl h => ⟨h.1.step l, loaded_step h.2 l hl⟩)
      (fun _ l hl h => queue_step h.1 h.2 l hl) hguarded ⟨haccounted, hjob⟩
    obtain ⟨task', hlookup'⟩ := Option.isSome_iff_exists.mp (hkept.1.tracked k hkept.2)
    refine ⟨task', hlookup', ?_⟩
    rw [Machine.total_sub, queue_of_lookup hlookup, queue_of_lookup hlookup'] at hbalance
    have hqueued : task'.queued =
        task'.pendingRunCount + if task'.state = .start then 1 else 0 := rfl
    omega

/-- A job is loaded by a worker that has just been started. -/
def firstReload : List Label :=
  [.reload (oneRow (secondsRow (ascii "alice") (ascii "SELECT 1"))) 0]

/-- Two runs become due, the first is started, and the row is read again. -/
def twoDue : List Label :=
  [.startPending 1000000, .startPending 6000000, .manage 7 6000000 0 smoothReplies,
    .startPending 11000000, .manage 7 11000000 0 smoothReplies,
    .reload (oneRow (secondsRow (ascii "alice") (ascii "SELECT 1"))) 12000000]

/-- The theorem at a job whose second run waits for the first. -/
theorem dueRuns_conserved_twoDue :
    let w := Machine.run World.step (World.launch defaultTimeout emptyHistory) firstReload
    let w' := Machine.run World.step w twoDue
    Machine.total World.step (World.increments 7) w twoDue = 2 ∧
      ∃ task', w'.tasks.lookup 7 = some task' ∧
        Machine.total World.step (World.increments 7) w twoDue =
          (w'.insertedFor 7 - w.insertedFor 7) + (if task'.state = .start then 1 else 0) +
            task'.pendingRunCount + Machine.total World.step (World.truncated 7) w twoDue := by
  intro w w'
  obtain ⟨task, hlookup, hbalance⟩ :=
    (dueRuns_conserved defaultTimeout emptyHistory firstReload).2.2 7 (by decide +kernel)
  have hempty : task.queued = 0 :=
    (dueRuns_conserved defaultTimeout emptyHistory []).2.1 7 rfl _ _ task hlookup
  have hkeeps : ∀ l ∈ twoDue, l.keepsLoaded 7 := by
    have hagain : (getCronJob (loadJobsList false true
        (oneRow (secondsRow (ascii "alice") (ascii "SELECT 1"))).table) 7).isSome = true := by
      decide +kernel
    simp only [twoDue, List.forall_mem_cons, Label.keepsLoaded]
    exact ⟨trivial, trivial, trivial, trivial, trivial, hagain, List.forall_mem_nil _⟩
  obtain ⟨task', hlookup', heq⟩ := hbalance twoDue hkeeps
  rw [hempty, Int.zero_add] at heq
  exact ⟨by decide +kernel, task', hlookup', heq⟩

end NedoCron
