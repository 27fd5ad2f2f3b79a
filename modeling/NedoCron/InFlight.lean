import NedoCron.TimeLimit

namespace NedoCron

/-!
# nedo_cron — tasks under way can be woken

A task in CONNECTING, SENDING or RUNNING is only stepped on by events: its socket becomes ready, or
a deadline passes.  Zero stands for no deadline and for no polling status, so every transition into
these states has to set both.

* `CronTask.Wakeable` — the fields of a task under way;
* `turn_wakeable`, `wakeable_rule` — every step keeps them;
* `registerTask_wakeable` — such a task is registered in the wait set, or fails with a message;
* `inFlight_wakeable` — so it is in every state reached.
-/

/-! ### What wakes a task -/

/-- A task under way has a connection that is polled, and a deadline or a cancelled query. -/
structure CronTask.Wakeable (task : CronTask) : Prop where
  conn : task.state.isConnected = true → task.conn.isSome = true
  polls : task.state.isConnected = true →
    task.pollingStatus = .reading ∨ task.pollingStatus = .writing
  starts : task.state = .connecting ∨ task.state = .sending → task.startDeadline ≠ 0
  runs : task.state = .running → task.runDeadline ≠ 0 ∨ task.cancelRequested = true

/-- Nothing is asked of a task without a connection. -/
theorem wakeable_of_not_connected {task : CronTask} (h : task.state.isConnected = false) :
    task.Wakeable where
  conn hstate := by rw [h] at hstate; cases hstate
  polls hstate := by rw [h] at hstate; cases hstate
  starts hstate := by rcases hstate with hs | hs <;> (rw [hs] at h; cases h)
  runs hstate := by rw [hstate] at h; cases h

/-- What is assumed of the steps of tasks: the clock is past the epoch, and `PQconnectPoll` does
    not return the status that libpq no longer uses. -/
def Label.Regular : Label → Prop
  | .manage _ currentTime _ io => 0 < currentTime ∧ io.connectPoll ≠ .active
  | _ => True

/-! ### Turns -/

/-- CONNECTING takes its status from `PQconnectPoll`. -/
theorem manageConnecting_wakeable {task : CronTask} (h : task.Wakeable)
    (hstate : task.state = .connecting) (currentTime : Int) {io : Replies}
    (hpoll : io.connectPoll ≠ .active) {task' : CronTask}
    (hkept : (manageConnecting task currentTime io).fate = .kept task') : task'.Wakeable := by
  have hconn := h.conn (by rw [hstate]; rfl)
  have hdeadline := h.starts (Or.inl hstate)
  have hfail : ∀ fmt args, (task.fail io.leftover fmt args).Wakeable := fun fmt args =>
    wakeable_of_not_connected rfl
  unfold manageConnecting at hkept
  split at hkept
  · cases hkept; exact hfail _ _
  · split at hkept
    · cases hkept; exact hfail _ _
    · split at hkept
      · cases hkept; exact hfail _ _
      · split at hkept
        · cases hkept; exact h
        · cases hreply : io.connectPoll with
          | ok =>
            rw [hreply] at hkept
            cases hkept
            exact ⟨fun _ => hconn, fun _ => Or.inr rfl, fun _ => hdeadline,
              fun hrunning => by cases hrunning⟩
          | failed =>
            rw [hreply] at hkept
            cases hkept
            exact hfail _ _
          | active => exact absurd hreply hpoll
          -- the connection is polled again, for what `PQconnectPoll` waits for
          | reading =>
            rw [hreply] at hkept
            cases hkept
            exact ⟨fun _ => hconn, fun _ => Or.inl rfl, fun _ => hdeadline,
              fun hrunning => by rw [show task.state = .running from hrunning] at hstate
                                 cases hstate⟩
          | writing =>
            rw [hreply] at hkept
            cases hkept
            exact ⟨fun _ => hconn, fun _ => Or.inr rfl, fun _ => hdeadline,
              fun hrunning => by rw [show task.state = .running from hrunning] at hstate
                                 cases hstate⟩

/-- SENDING keeps its status until the query is sent, which sets the deadline of RUNNING. -/
theorem manageSending_wakeable {task : CronTask} (h : task.Wakeable)
    (hstate : task.state = .sending) (job : CronJob) {statementTimeoutMs currentTime : Int}
    (htimeout : 0 ≤ statementTimeoutMs) (hnow : 0 < currentTime) {io : Replies}
    {task' : CronTask}
    (hkept : (manageSending task job statementTimeoutMs currentTime io).fate = .kept task') :
    task'.Wakeable := by
  have hconn := h.conn (by rw [hstate]; rfl)
  have hfail : ∀ fmt args, (task.fail io.leftover fmt args).Wakeable := fun fmt args =>
    wakeable_of_not_connected rfl
  unfold manageSending at hkept
  split at hkept
  · cases hkept; exact hfail _ _
  · split at hkept
    · cases hkept; exact hfail _ _
    · split at hkept
      · cases hkept; exact hfail _ _
      · split at hkept
        · cases hkept; exact h
        · split at hkept
          · cases hkept
            refine ⟨fun _ => hconn, fun _ => Or.inl rfl, fun hearly => ?_, fun _ => Or.inl ?_⟩
            · rcases hearly with hearly | hearly <;> cases hearly
            · show currentTime + statementTimeoutMs * 1000 ≠ 0
              omega
          · cases hkept; exact hfail _ _

/-- The deadline check of RUNNING gives up the deadline only for a requested cancel. -/
theorem Checked.wakeable {task base : CronTask} {currentTime : Int} {functions : List PqFunction}
    (hchecked : Checked currentTime task base functions) (hstate : task.state = .running)
    (h : task.Wakeable) : base.Wakeable := by
  cases hchecked with
  | within => exact h
  | cancelled hoverdue =>
    refine ⟨h.conn, fun _ => Or.inl rfl, fun hearly => ?_, fun _ => Or.inr rfl⟩
    change task.state = .connecting ∨ task.state = .sending at hearly
    rw [hstate] at hearly
    rcases hearly with hearly | hearly <;> cases hearly

/-- The turns of the other states. -/
theorem Outcome.wakeable {context : StepContext} {io : Replies} {task : CronTask} {turn : Turn}
    (houtcome : Outcome context io task turn) (h : task.Wakeable)
    (hconnecting : task.state ≠ .connecting) (hsending : task.state ≠ .sending)
    (hnow : 0 < context.currentTime) {task' : CronTask} (hkept : turn.fate = .kept task') :
    task'.Wakeable := by
  cases houtcome with
  | removed hstate hactive => cases hkept
  | idle hstate => cases hkept; exact h
  -- START sets the deadline and registers for writing
  | opened job hjob hstate =>
    cases hkept
    refine ⟨fun _ => rfl, fun _ => Or.inr rfl, fun _ => ?_, fun hrunning => by cases hrunning⟩
    show context.currentTime + 10000 * 1000 ≠ 0
    omega
  | waits hstate functions hcancel pollingStatus =>
    exact absurd hstate (not_or.mpr ⟨hconnecting, hsending⟩)
  | connected hstate => exact absurd hstate hconnecting
  | sent job hjob hstate => exact absurd hstate hsending
  | runs hstate base functions more hchecked hcancel =>
    cases hkept
    exact hchecked.wakeable hstate h
  | closed base hstate hbase =>
    obtain ⟨-, rfl⟩ := manageError_kept hkept
    exact wakeable_of_not_connected rfl
  | reset hstate =>
    unfold manageDone at hkept
    split at hkept <;> (cases hkept; exact wakeable_of_not_connected rfl)
  | _ => cases hkept; exact wakeable_of_not_connected rfl

/-- **A turn** keeps a task wakeable. -/
theorem turn_wakeable {w : World} {task : CronTask} (h : task.Wakeable) {currentTime : Int}
    (hnow : 0 < currentTime) (gap : Nat) {io : Replies} (hpoll : io.connectPoll ≠ .active)
    {task' : CronTask} (hkept : (w.turn task currentTime gap io).fate = .kept task') :
    task'.Wakeable := by
  by_cases hearly : task.state = .connecting ∨ task.state = .sending
  · cases hjob : getCronJob w.jobs task.jobId with
    | none =>
      have hstate : task.state ≠ .done := by
        rcases hearly with hstate | hstate <;> (rw [hstate]; decide)
      have hdone : task'.state = .done := state_of_jobless hjob hstate hkept
      exact wakeable_of_not_connected (by rw [hdone]; rfl)
    | some job =>
      -- the polling status of these two states is not part of the outcome
      rcases hearly with hstate | hstate
      · have heq : w.turn task currentTime gap io = manageConnecting task currentTime io := by
          unfold World.turn manageCronTask World.context
          rw [hjob, hstate]
        rw [heq] at hkept
        exact manageConnecting_wakeable h hstate currentTime hpoll hkept
      · have heq : w.turn task currentTime gap io =
            manageSending task job w.statementTimeout.ms currentTime io := by
          unfold World.turn manageCronTask World.context
          rw [hjob, hstate]
        rw [heq] at hkept
        exact manageSending_wakeable h hstate job w.statementTimeout.nonneg hnow hkept
  · obtain ⟨hconnecting, hsending⟩ := not_or.mp hearly
    exact (turn_outcome w task currentTime gap io).wakeable h hconnecting hsending hnow hkept

/-- **Every step** keeps the tasks wakeable. -/
theorem wakeable_rule : TaskRule (fun _ l => l.Regular) CronTask.Wakeable where
  init _ _ := wakeable_of_not_connected rfl
  idles := by
    rintro task task' ⟨_, _, _, _, rfl⟩ h
    exact ⟨h.conn, h.polls, h.starts, h.runs⟩
  waitFails _ _ _ _ _ _ := wakeable_of_not_connected rfl
  turn hregular h hkept := turn_wakeable h hregular.1 _ hregular.2 hkept

/-! ### Waits -/

theorem taskNeedsSocketWait_eq (task : CronTask) :
    taskNeedsSocketWait task = task.state.isConnected := rfl

/-- **Registering a wakeable task**: without a valid socket it fails with a message, and otherwise
    it is in the wait set. -/
theorem registerTask_wakeable {task : CronTask} (h : task.Wakeable)
    (hstate : task.state.isConnected = true) (io : WaitReplies) :
    ∃ conn, task.conn = some conn ∧
      ((io.socket conn < 0 ∧ (registerTask io task).1.state = .error ∧
          (registerTask io task).1.errorMessage.isSome = true) ∨
        (0 ≤ io.socket conn ∧ (registerTask io task).1 = task ∧
          (registerTask io task).2.1 = true)) := by
  obtain ⟨conn, hconn⟩ := Option.isSome_iff_exists.mp (h.conn hstate)
  have hevents : taskWaitEvents task ≠ none := by
    unfold taskWaitEvents
    rcases h.polls hstate with hpolls | hpolls <;> (rw [hpolls]; simp)
  have hnot : ¬(taskNeedsSocketWait task = false ∨ taskWaitEvents task = none) := by
    rw [taskNeedsSocketWait_eq, hstate]
    exact not_or.mpr ⟨by decide, hevents⟩
  refine ⟨conn, hconn, ?_⟩
  unfold registerTask
  rw [if_neg hnot, hconn]
  dsimp only
  by_cases hsocket : io.socket conn < 0
  · rw [if_pos hsocket]
    exact Or.inl ⟨hsocket, rfl, rfl⟩
  · rw [if_neg hsocket]
    exact Or.inr ⟨by omega, rfl, rfl⟩

/-- **A task under way can always be woken.**  Let the clock be past the epoch and `PQconnectPoll`
    return none but the four statuses libpq uses.  Then, whenever the worker enters a wait, each
    task in CONNECTING, SENDING or RUNNING has a connection and is polled for reading or for
    writing.  If its socket is invalid, the wait puts it into ERROR with a message; otherwise it is
    registered, and a wait that takes time reports whether its socket is ready.  CONNECTING and
    SENDING have a deadline, and so has RUNNING unless a cancel was requested.  No task meets the
    branch for a connection that is `NULL`. -/
theorem inFlight_wakeable (statementTimeout : StatementTimeout) (history : History)
    (ls : List Label) (hls : ∀ l ∈ ls, l.Regular) :
    let w := Machine.run World.step (World.launch statementTimeout history) ls
    ∀ k task, w.tasks.lookup k = some task →
      (task.state = .connecting ∨ task.state = .sending ∨ task.state = .running →
        (task.pollingStatus = .reading ∨ task.pollingStatus = .writing) ∧
        ∃ conn, task.conn = some conn ∧ ∀ io : WaitReplies,
          (io.socket conn < 0 → (registerTask io task.unready).1.state = .error ∧
            (registerTask io task.unready).1.errorMessage.isSome = true) ∧
          (0 ≤ io.socket conn → (registerTask io task.unready).2.1 = true ∧
            (w.waitTimeout io ≠ 0 → (w.waitForEvent io).tasks.lookup k =
              some { task with isSocketReady := io.ready k }))) ∧
      (task.state = .connecting ∨ task.state = .sending → task.startDeadline ≠ 0) ∧
      (task.state = .running → task.runDeadline ≠ 0 ∨ task.cancelRequested = true) ∧
      ¬(taskNeedsSocketWait task.unready = true ∧ taskWaitEvents task.unready ≠ none ∧
        task.unready.conn = none) := by
  intro w k task hlookup
  have h : task.Wakeable := wakeable_rule.run statementTimeout history
    (Machine.guarded_of_forall _ hls) k task hlookup
  -- a wait begins by clearing the ready flags
  have hunready : task.unready.Wakeable := ⟨h.conn, h.polls, h.starts, h.runs⟩
  refine ⟨fun hstate => ?_, h.starts, h.runs, fun hnull => ?_⟩
  · have hconnected : task.state.isConnected = true := by
      rcases hstate with hs | hs | hs <;> (rw [hs]; rfl)
    obtain ⟨conn, hconn⟩ := Option.isSome_iff_exists.mp (h.conn hconnected)
    refine ⟨h.polls hconnected, conn, hconn, fun io => ?_⟩
    obtain ⟨conn', hconn', hregister⟩ := registerTask_wakeable hunready hconnected io
    obtain rfl : conn = conn' := Option.some.inj (hconn.symm.trans hconn')
    rcases hregister with ⟨hneg, herror, hmessage⟩ | ⟨hnonneg, hsame, hregistered⟩
    · exact ⟨fun _ => ⟨herror, hmessage⟩, fun hnonneg => absurd hneg (not_lt.mpr hnonneg)⟩
    · refine ⟨fun hneg => absurd hneg (not_lt.mpr hnonneg), fun _ => ⟨hregistered, fun htime => ?_⟩⟩
      rw [lookup_wait, hlookup, Option.map_some, if_neg htime]
      unfold awaitTask
      dsimp only
      rw [hregistered, hsame, Bool.true_and]
      cases io.ready k <;> rfl
  · obtain ⟨hneeds, -, hnone⟩ := hnull
    have hsome := hunready.conn hneeds
    rw [hnone] at hsome
    cases hsome

/-- The theorem at a run whose query was just sent. -/
theorem inFlight_wakeable_sent :
    let w := Machine.run World.step (World.launch defaultTimeout emptyHistory) sentRun
    ∃ task, w.tasks.lookup 7 = some task ∧ task.state = .running ∧
      (task.runDeadline ≠ 0 ∨ task.cancelRequested = true) := by
  intro w
  have hregular : ∀ l ∈ sentRun, l.Regular := by
    have hpoll : smoothReplies.connectPoll ≠ .active := by decide
    simp [sentRun, rereadRun, untilStart, afterStart, Label.Regular, hpoll]
  cases hlookup : w.tasks.lookup 7 with
  | none => exact absurd hlookup (by decide +kernel)
  | some task =>
    have hstate : task.state = .running := by
      have hrunning : (w.tasks.lookup 7).map CronTask.state = some .running := by decide +kernel
      rw [hlookup] at hrunning
      exact Option.some.inj hrunning
    exact ⟨task, rfl, hstate, (inFlight_wakeable defaultTimeout emptyHistory sentRun hregular 7 task
      hlookup).2.2.1 hstate⟩

end NedoCron
