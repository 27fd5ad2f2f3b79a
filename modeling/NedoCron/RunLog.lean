import NedoCron.Connections

namespace NedoCron

/-!
# nedo_cron — the log of a run

The calls made for one run, in order, are its log.  A statement about runs is proved by
saying what the log of a run under way has to do with its task (`P`) and what is true of the
log of a run that is over (`Q`); `TurnRule` lists what one step must keep, `LogRule` asks it of
the outcomes of a turn, and `recorded` carries it along every run of the worker whose steps meet a
guard.

* `Outcome.life` — a turn opens a run, works for the open run of its task, or makes no calls;
* `TurnRule.step`, `TurnRule.recorded` — the rule; `LogRule.recorded` — the rule for outcomes.
-/

/-! ### Turns and runs -/

section Life

variable {context : StepContext} {io : Replies} {task : CronTask} {turn : Turn}

/-- A turn that leaves the task in its run. -/
theorem life_stays {task' : CronTask} {calls : List Call} {r fresh : Int}
    (hopen : task.openRun = some r) (hstate : task'.state.inFlight = true)
    (hrun : task'.runId = r) (hpos : 0 < r) :
    ((Turn.keep task' calls).calls = [] ∧ task.openRun = none ∧
        (Turn.keep task' calls).fate.openRun = none) ∨
      (task.state = .start ∧ task.openRun = none ∧ (Turn.keep task' calls).run = fresh ∧
        (Turn.keep task' calls).fate.openRun = some fresh) ∨
      (task.openRun = some (Turn.keep task' calls).run ∧
        ((Turn.keep task' calls).fate.openRun = some (Turn.keep task' calls).run ∨
          (Turn.keep task' calls).fate.openRun = none)) := by
  subst hrun
  exact Or.inr (Or.inr ⟨hopen, Or.inl (openRun_of_inFlight hstate hpos)⟩)

/-- **A turn** makes no calls, or opens the new run, or works for the open run. -/
theorem Outcome.life (h : Outcome context io task turn) {jobId : Int} (hok : TaskOk jobId task)
    (hnew : 0 < context.newRunId) :
    (turn.calls = [] ∧ task.openRun = none ∧ turn.fate.openRun = none) ∨
      (task.state = .start ∧ task.openRun = none ∧ turn.run = context.newRunId ∧
        turn.fate.openRun = some context.newRunId) ∨
      (task.openRun = some turn.run ∧
        (turn.fate.openRun = some turn.run ∨ turn.fate.openRun = none)) := by
  have hidle : task.state.inFlight = false → task.openRun = none := openRun_of_not_inFlight
  have hbusy : task.state.inFlight = true → task.openRun = some task.runId ∧ 0 < task.runId :=
    fun hstate => ⟨openRun_of_inFlight hstate (hok.open_run hstate), hok.open_run hstate⟩
  cases h with
  | removed hstate hactive => exact Or.inl ⟨rfl, hidle (by rw [hstate]; rfl), rfl⟩
  | idle hstate =>
    have hnone := hidle (by rw [hstate]; rfl)
    exact Or.inl ⟨rfl, hnone, hnone⟩
  | due hstate hpending =>
    exact Or.inl ⟨rfl, hidle (by rw [hstate]; rfl), openRun_of_not_inFlight rfl⟩
  | refused job hjob hstate fmt args =>
    exact Or.inr (Or.inl ⟨hstate, hidle (by rw [hstate]; rfl), rfl, openRun_of_inFlight rfl hnew⟩)
  | unusable job hjob hstate functions hcancel fmt args =>
    exact Or.inr (Or.inl ⟨hstate, hidle (by rw [hstate]; rfl), rfl, openRun_of_inFlight rfl hnew⟩)
  | opened job hjob hstate =>
    exact Or.inr (Or.inl ⟨hstate, hidle (by rw [hstate]; rfl), rfl, openRun_of_inFlight rfl hnew⟩)
  | failed hstate functions hcancel fmt args =>
    obtain ⟨hrun, hpos⟩ := hbusy (isConnected_inFlight hstate)
    exact life_stays hrun rfl rfl hpos
  | waits hstate functions hcancel pollingStatus =>
    have hflight : task.state.inFlight = true := by rcases hstate with h | h <;> rw [h] <;> rfl
    obtain ⟨hrun, hpos⟩ := hbusy hflight
    exact life_stays hrun hflight rfl hpos
  | connected hstate =>
    obtain ⟨hrun, hpos⟩ := hbusy (by rw [hstate]; rfl)
    exact life_stays hrun rfl rfl hpos
  | sent job hjob hstate =>
    obtain ⟨hrun, hpos⟩ := hbusy (by rw [hstate]; rfl)
    exact life_stays hrun rfl rfl hpos
  | unsent job hjob hstate fmt args =>
    obtain ⟨hrun, hpos⟩ := hbusy (by rw [hstate]; rfl)
    exact life_stays hrun rfl rfl hpos
  | notCancelled hstate hoverdue functions hone fmt args cancelRequested runDeadline =>
    obtain ⟨hrun, hpos⟩ := hbusy (by rw [hstate]; rfl)
    exact life_stays hrun rfl rfl hpos
  | runs hstate base functions more hchecked hcancel =>
    have hflight : task.state.inFlight = true := by rw [hstate]; rfl
    obtain ⟨hrun, hpos⟩ := hbusy hflight
    exact life_stays hrun (by rw [hchecked.state_eq]; exact hflight) hchecked.runId_eq hpos
  | unread hstate base functions more hchecked hcancel fmt args =>
    obtain ⟨hrun, hpos⟩ := hbusy (by rw [hstate]; rfl)
    exact life_stays hrun rfl hchecked.runId_eq hpos
  | succeeded hstate base functions more hchecked hcancel hread =>
    obtain ⟨hrun, -⟩ := hbusy (by rw [hstate]; rfl)
    refine Or.inr (Or.inr ⟨?_, Or.inr (openRun_of_not_inFlight rfl)⟩)
    rw [hrun, ← hchecked.runId_eq]
    rfl
  | resultFailed hstate base functions more hchecked hcancel before after result busy hresults
      hbefore hfails fmt =>
    obtain ⟨hrun, hpos⟩ := hbusy (by rw [hstate]; rfl)
    have hbase : (base.atResult result).runId = task.runId :=
      (base.atResult_runId result).trans hchecked.runId_eq
    exact life_stays hrun rfl hbase hpos
  | closed base hdone hbase =>
    -- the ERROR branch, entered by the state or because the job is gone
    have hsame : base.runId = task.runId ∧ base.conn = task.conn := by
      rcases hbase with ⟨rfl, _⟩ | ⟨_, rfl⟩ <;> exact ⟨rfl, rfl⟩
    have hnone : (manageError base io).fate.openRun = none := by
      unfold manageError
      dsimp only
      split
      · rfl
      · exact openRun_of_not_inFlight rfl
    by_cases hflight : task.state.inFlight = true
    · refine Or.inr (Or.inr ⟨?_, Or.inr hnone⟩)
      rw [(hbusy hflight).1, ← hsame.1]
      rfl
    · -- without a run there is nothing to record and nothing to close
      have hidleState : task.state = .waiting ∨ task.state = .start := by
        have hrecv := hok.not_receiving
        cases hs : task.state <;>
          simp_all [CronTaskState.inFlight, CronTaskState.isConnected]
      have hrun := hok.idle_run hidleState
      have hconn : task.conn = none := hok.idle_conn (by tauto)
      refine Or.inl ⟨?_, hidle (by simpa using hflight), hnone⟩
      simp [manageError, hsame.1, hsame.2, hrun, hconn]
  | reset hstate =>
    have hdone : task.state = .done := hstate.resolve_right hok.not_receiving
    refine Or.inl ⟨?_, hidle (by rw [hdone]; rfl), ?_⟩
    · rfl
    · unfold manageDone
      split <;> exact openRun_of_not_inFlight rfl

/-- What a turn writes about runs: at most one statement, about the run it works for. -/
theorem Outcome.runEvents_cases (h : Outcome context io task turn) :
    turn.calls.flatMap Call.runEvents = [] ∨
      turn.calls.flatMap Call.runEvents = [.acquire turn.run] ∨
      turn.calls.flatMap Call.runEvents = [.use turn.run] ∨
      turn.calls.flatMap Call.runEvents = [.release turn.run] := by
  cases h with
  | removed hstate hactive => exact Or.inl rfl
  | idle hstate => exact Or.inl rfl
  | due hstate hpending => exact Or.inl rfl
  | refused job hjob hstate fmt args => exact Or.inr (Or.inl rfl)
  | unusable job hjob hstate functions hcancel fmt args =>
    -- START inserts the row
    refine Or.inr (Or.inl ?_)
    simp [Turn.keep, Call.runEvents, CronTask.fail, setTaskError]
  | opened job hjob hstate =>
    refine Or.inr (Or.inl ?_)
    simp [Turn.keep, Call.runEvents]
  | failed hstate functions hcancel fmt args => exact Or.inl (by simp [Turn.keep])
  | waits hstate functions hcancel pollingStatus => exact Or.inl (by simp [Turn.keep])
  | connected hstate =>
    -- the PID is noted when the connection stands
    refine Or.inr (Or.inr (Or.inl ?_))
    simp [Turn.keep, Call.runEvents]
  | sent job hjob hstate => exact Or.inl (by simp [Turn.keep, Call.runEvents])
  | unsent job hjob hstate fmt args => exact Or.inl (by simp [Turn.keep, Call.runEvents])
  | notCancelled hstate hoverdue functions hone fmt args cancelRequested runDeadline =>
    exact Or.inl (by simp [Turn.keep])
  | runs hstate base functions more hchecked hcancel => exact Or.inl (by simp [Turn.keep])
  | unread hstate base functions more hchecked hcancel fmt args =>
    exact Or.inl (by simp [Turn.keep])
  | succeeded hstate base functions more hchecked hcancel hread =>
    -- the row is finished once the results are read, or in the error branch
    refine Or.inr (Or.inr (Or.inr ?_))
    simp [Turn.keep, Call.runEvents, CronTask.disconnected, hchecked.runId_eq]
  | resultFailed hstate base functions more hchecked hcancel before after result busy hresults
      hbefore hfails fmt =>
    exact Or.inl (by simp [Turn.keep, Call.runEvents])
  | closed base hdone hbase =>
    rw [runEvents_manageError]
    by_cases hrun : base.runId = 0
    · exact Or.inl (if_pos hrun)
    · exact Or.inr (Or.inr (Or.inr (if_neg hrun)))
  | reset hstate => exact Or.inl rfl

/-- The events of a turn are of its run. -/
theorem Outcome.runEvents_run (h : Outcome context io task turn) {call : Call}
    (hcall : call ∈ turn.calls) : ∀ ev ∈ call.runEvents, ev.handle = turn.run := by
  intro ev hev
  have hmem : ev ∈ turn.calls.flatMap Call.runEvents := List.mem_flatMap.mpr ⟨call, hcall, hev⟩
  rcases h.runEvents_cases with heq | heq | heq | heq <;> rw [heq] at hmem
  · exact absurd hmem (by simp)
  · rw [List.mem_singleton.mp hmem]; rfl
  · rw [List.mem_singleton.mp hmem]; rfl
  · rw [List.mem_singleton.mp hmem]; rfl

end Life

/-! ### Logs -/

/-- The calls recorded for a run. -/
def World.log (w : World) (r : Int) : List Entry := w.trace.filter fun e => e.run = r

/-- Every call is recorded under a run that was started, and every statement about a run is
    recorded under that run. -/
structure World.Filed (w : World) : Prop where
  started : ∀ e ∈ w.trace, .acquire e.run ∈ w.runLog
  statement : ∀ e ∈ w.trace, ∀ ev ∈ e.call.runEvents, ev.handle = e.run

/-- The log of a run, after more entries. -/
theorem log_append {w w' : World} {entries : List Entry} (h : w'.trace = w.trace ++ entries)
    (r : Int) : w'.log r = w.log r ++ entries.filter fun e => e.run = r := by
  rw [World.log, h, List.filter_append]
  rfl

/-- What is in the log of a run. -/
theorem mem_log {w : World} {r : Int} {e : Entry} (h : e ∈ w.log r) : e ∈ w.trace ∧ e.run = r := by
  simpa [World.log] using h

/-- A run that was not started has no calls. -/
theorem log_eq_nil {w : World} (hfiled : w.Filed) {r : Int} (h : .acquire r ∉ w.runLog) :
    w.log r = [] := by
  rw [World.log, List.filter_eq_nil_iff]
  intro e he hrun
  apply h
  rw [← show e.run = r by simpa using hrun]
  exact hfiled.started e he

/-- The calls of a turn go to the log of its run. -/
theorem filter_entries (turn : Turn) (jobId currentTime r : Int) :
    ((turn.entries jobId currentTime).filter fun e => e.run = r) =
      if turn.run = r then turn.entries jobId currentTime else [] := by
  unfold Turn.entries
  by_cases hr : turn.run = r
  · rw [if_pos hr, List.filter_eq_self]
    intro e he
    obtain ⟨call, -, rfl⟩ := List.mem_map.mp he
    simpa using hr
  · rw [if_neg hr, List.filter_eq_nil_iff]
    intro e he
    obtain ⟨call, -, rfl⟩ := List.mem_map.mp he
    simpa using hr

/-- A turn adds its entries to the log of its run. -/
theorem log_manage {w : World} {jobId : Int} {task : CronTask}
    (hold : w.tasks.lookup jobId = some task) (currentTime : Int) (gap : Nat) (io : Replies)
    (r : Int) : (w.manage jobId currentTime gap io).log r =
      w.log r ++ if (w.turn task currentTime gap io).run = r then
        (w.turn task currentTime gap io).entries jobId currentTime else [] := by
  rw [← filter_entries]
  apply log_append
  rw [manage_eq hold]

/-- The calls that a step records. -/
def World.recorded (w : World) (l : Label) : List Entry :=
  (w.step l).trace.drop w.trace.length

/-- A step adds to the trace what it records. -/
theorem trace_eq_recorded (w : World) (l : Label) :
    (w.step l).trace = w.trace ++ w.recorded l := by
  obtain ⟨entries, htrace⟩ := trace_step w l
  rw [World.recorded, htrace, List.drop_left]

/-- What a step records, from the trace. -/
theorem recorded_eq {w : World} {l : Label} {entries : List Entry}
    (h : (w.step l).trace = w.trace ++ entries) : w.recorded l = entries := by
  rw [World.recorded, h, List.drop_left]

/-- The turn of a task records its calls. -/
theorem recorded_manage {w : World} {jobId : Int} {task : CronTask}
    (hold : w.tasks.lookup jobId = some task) (currentTime : Int) (gap : Nat) (io : Replies) :
    w.recorded (.manage jobId currentTime gap io) =
      (w.turn task currentTime gap io).entries jobId currentTime := by
  apply recorded_eq
  rw [World.step, manage_eq hold]

/-! ### Filing -/

/-- A run that is held was started. -/
theorem started_of_heldRun {w : World} (hok : WorldOk w) {k r : Int}
    (h : w.heldRun k = some r) : .acquire r ∈ w.runLog := (hok.runs.live k r h).1

/-- A run that has started has an id of the sequence. -/
theorem started_le {w : World} (hok : WorldOk w) {r : Int} (h : .acquire r ∈ w.runLog) :
    r ≤ w.history.lastRunId := hok.runs_le (.acquire r) h

/-- A run is not started before its turn. -/
theorem log_nextRunId {w : World} (hok : WorldOk w) (hfiled : w.Filed) (gap : Nat) :
    w.log (w.history.nextRunId gap) = [] := by
  rw [World.log, List.filter_eq_nil_iff]
  intro e he
  have hle := started_le hok (hfiled.started e he)
  unfold History.nextRunId
  simp only [decide_eq_true_eq]
  omega

/-- The run a turn works for, unless it makes no calls: it is new or the task's own, no other
    task holds it, and afterwards the task holds it or has given it up. -/
theorem turn_run {w : World} (hok : WorldOk w) (hfiled : w.Filed) {jobId : Int}
    {task : CronTask} (hold : w.tasks.lookup jobId = some task) (currentTime : Int) (gap : Nat)
    (io : Replies) :
    ((w.turn task currentTime gap io).calls = [] ∧ task.openRun = none ∧
        (w.turn task currentTime gap io).fate.openRun = none) ∨
      ((task.openRun = none → w.log (w.turn task currentTime gap io).run = []) ∧
        (∀ r, task.openRun = some r → r = (w.turn task currentTime gap io).run) ∧
        (∀ k, k ≠ jobId → w.heldRun k ≠ some (w.turn task currentTime gap io).run) ∧
        ((w.turn task currentTime gap io).fate.openRun =
            some (w.turn task currentTime gap io).run ∨
          ((w.turn task currentTime gap io).fate.openRun = none ∧
            task.openRun = some (w.turn task currentTime gap io).run))) := by
  rcases (turn_outcome w task currentTime gap io).life (hok.tasks jobId task hold)
    (nextRunId_pos w.history gap) with hnil | ⟨-, hnone, hrun, hopens⟩ | ⟨hopen, hcases⟩
  · exact Or.inl hnil
  · refine Or.inr ⟨fun _ => ?_, fun r hr => ?_, fun k _ hk => ?_, Or.inl ?_⟩
    · rw [hrun]; exact log_nextRunId hok hfiled gap
    · rw [hnone] at hr; exact absurd hr (by simp)
    -- the sequence has not handed out this id before, so no one holds it
    · have hle := started_le hok (started_of_heldRun hok hk)
      have hnew : (w.turn task currentTime gap io).run = w.history.nextRunId gap := hrun
      rw [hnew] at hle
      unfold History.nextRunId at hle
      omega
    · rw [hopens, hrun]
  · refine Or.inr ⟨fun hnone => ?_, fun r hr => ?_, fun k hk hheld => hk ?_, ?_⟩
    · rw [hnone] at hopen; exact absurd hopen (by simp)
    · exact Option.some.inj (hr.symm.trans hopen)
    · exact hok.runs.exclusive k jobId _ hheld (by rw [heldRun_of_lookup hold, hopen])
    · exact hcases.imp_right fun hnone => ⟨hnone, hopen⟩

/-- **Every step** files its calls under the run that is open.  A call of a wait or a turn is of the
    run its task has open, or of the one it begins. -/
theorem filed_step {w : World} (hok : WorldOk w) (hfiled : w.Filed) (l : Label) :
    (w.step l).Filed := by
  rcases step_cases w l with hquiet | ⟨io, rfl⟩ | ⟨jobId, currentTime, gap, io, rfl⟩
  · -- other steps record nothing
    have hrunLog : (w.step l).runLog = w.runLog := by rw [World.runLog, hquiet.trace]; rfl
    constructor
    · rw [hquiet.trace, hrunLog]; exact hfiled.started
    · rw [hquiet.trace]; exact hfiled.statement
  · -- a wait records uses of connections by tasks under way
    obtain ⟨entries, htrace, hentries⟩ := trace_wait w io
    constructor
    · intro e he
      show .acquire e.run ∈ (w.waitForEvent io).runLog
      change e ∈ (w.waitForEvent io).trace at he
      rw [htrace] at he
      rw [runLog_wait]
      rcases List.mem_append.mp he with he | he
      · exact hfiled.started e he
      · obtain ⟨task, conn, hold, hstate, -, hrun, -⟩ := hentries e he
        have hflight := isConnected_inFlight hstate
        have hheld : w.heldRun e.jobId = some task.runId := by
          rw [heldRun_of_lookup hold]
          exact openRun_of_inFlight hflight ((hok.tasks _ task hold).open_run hflight)
        rw [hrun]
        exact started_of_heldRun hok hheld
    · intro e he
      change e ∈ (w.waitForEvent io).trace at he
      rw [htrace] at he
      rcases List.mem_append.mp he with he | he
      · exact hfiled.statement e he
      · obtain ⟨task, conn, -, -, -, -, hcall⟩ := hentries e he
        rw [hcall]
        simp [Call.runEvents]
  · show (w.manage jobId currentTime gap io).Filed
    cases hold : w.tasks.lookup jobId with
    | none => rw [manage_none hold]; exact hfiled
    | some task =>
      have hok' := hok.manageSome hold currentTime gap io
      have houtcome := turn_outcome w task currentTime gap io
      have hlife := houtcome.life (hok.tasks jobId task hold) (nextRunId_pos w.history gap)
      have htrace : (w.manage jobId currentTime gap io).trace =
          w.trace ++ (w.turn task currentTime gap io).entries jobId currentTime := by
        rw [manage_eq hold]
      have hrunLog := runLog_manage hold currentTime gap io
      constructor
      · intro e he
        rw [htrace] at he
        rcases List.mem_append.mp he with he | he
        · rw [hrunLog]
          exact List.mem_append_left _ (hfiled.started e he)
        · obtain ⟨call, hcall, rfl⟩ := List.mem_map.mp he
          show Ledger.Event.acquire (w.turn task currentTime gap io).run ∈ _
          -- the turn is of the run it begins, or of the one that is open
          rcases hlife with ⟨hnil, -⟩ | ⟨-, -, hrun, hfate⟩ | ⟨hopen, -⟩
          · rw [hnil] at hcall; exact absurd hcall (by simp)
          · apply started_of_heldRun hok' (k := jobId)
            rw [(held_manage hold currentTime gap io jobId).2, if_pos rfl, hfate, hrun]
          · rw [hrunLog]
            apply List.mem_append_left
            apply started_of_heldRun hok (k := jobId)
            rw [heldRun_of_lookup hold, hopen]
      · intro e he
        rw [htrace] at he
        rcases List.mem_append.mp he with he | he
        · exact hfiled.statement e he
        · obtain ⟨call, hcall, rfl⟩ := List.mem_map.mp he
          exact houtcome.runEvents_run hcall

/-! ### The rule -/

/-- `PQsocket`, the call a wait makes. -/
def Call.isSocket : Call → Prop
  | .use .socket _ => True
  | _ => False

/-- A call that is recorded by a step is `PQsocket`, or one of the turn of a task. -/
theorem mem_recorded {w : World} {l : Label} {e : Entry} (he : e ∈ w.recorded l) :
    e.call.isSocket ∨ ∃ task gap io, l = .manage e.jobId e.time gap io ∧
      w.tasks.lookup e.jobId = some task ∧ e.run = (w.turn task e.time gap io).run ∧
      e.call ∈ (w.turn task e.time gap io).calls := by
  rcases step_cases w l with hquiet | ⟨io, rfl⟩ | ⟨k, now, gap, io, rfl⟩
  · rw [recorded_eq (hquiet.trace.trans (List.append_nil _).symm)] at he
    cases he
  · obtain ⟨entries, htrace, hentries⟩ := trace_wait w io
    rw [@recorded_eq w (.wait io) entries htrace] at he
    obtain ⟨task, conn, -, -, -, -, hcall⟩ := hentries e he
    rw [hcall]
    exact Or.inl trivial
  · cases hold : w.tasks.lookup k with
    | none =>
      have hsame : (w.step (.manage k now gap io)).trace = w.trace ++ [] := by
        rw [World.step, manage_none hold, List.append_nil]
      rw [recorded_eq hsame] at he
      cases he
    | some task =>
      rw [recorded_manage hold] at he
      obtain ⟨call, hcall, rfl⟩ := List.mem_map.mp he
      exact Or.inr ⟨task, gap, io, rfl, hold, rfl, hcall⟩

/-- What one step of the worker must keep of `P`, which relates the loaded jobs, a task with
    an open run and the log of the run, and of `Q`, which is true of a run that is over and
    its log.  `g` is a guard on the steps. -/
structure LogRule (g : World → Label → Prop)
    (P : Table Int CronJob → CronTask → List Entry → Prop) (Q : Int → List Entry → Prop) :
    Prop where
  /-- flags, the queue and the next time of a task do not matter -/
  idles : ∀ {jobs task task' log}, Idles task task' → P jobs task log → P jobs task' log
  /-- the jobs may be loaded anew -/
  reload : ∀ {w source currentTime k task log}, WorldOk w → g w (.reload source currentTime) →
    w.tasks.lookup k = some task → P w.jobs task log →
    P (w.reload source currentTime).jobs task log
  /-- sockets are asked for -/
  socket : ∀ {jobs task log} {entries : List Entry}, (∀ e ∈ entries, e.call.isSocket) →
    P jobs task log → P jobs task (log ++ entries)
  /-- a wait may fail a task under way -/
  waitFails : ∀ {jobs task log} (leftover fmt args pollingStatus),
    task.state.isConnected = true → P jobs task log →
    P jobs { task.fail leftover fmt args with pollingStatus := pollingStatus } log
  /-- a turn begins or continues a run -/
  turn : ∀ {w jobId task currentTime gap io log task'} {turn : Turn}, WorldOk w →
    g w (.manage jobId currentTime gap io) → w.tasks.lookup jobId = some task →
    Outcome (w.context task currentTime gap) io task turn → log = w.log turn.run →
    (task.openRun = none → log = []) → (task.openRun.isSome = true → P w.jobs task log) →
    turn.fate = .kept task' → task'.openRun.isSome = true →
    P w.jobs task' (log ++ turn.entries jobId currentTime)
  /-- a turn ends a run -/
  ends : ∀ {w jobId task currentTime gap io log} {turn : Turn}, WorldOk w →
    g w (.manage jobId currentTime gap io) → w.tasks.lookup jobId = some task →
    Outcome (w.context task currentTime gap) io task turn → log = w.log turn.run →
    task.openRun = some turn.run → P w.jobs task log → turn.fate.openRun = none →
    Q turn.run (log ++ turn.entries jobId currentTime)

/-- The same for the turn that the task makes, where its outcome says too little. -/
structure TurnRule (g : World → Label → Prop)
    (P : Table Int CronJob → CronTask → List Entry → Prop) (Q : Int → List Entry → Prop) :
    Prop where
  idles : ∀ {jobs task task' log}, Idles task task' → P jobs task log → P jobs task' log
  reload : ∀ {w source currentTime k task log}, WorldOk w → g w (.reload source currentTime) →
    w.tasks.lookup k = some task → P w.jobs task log →
    P (w.reload source currentTime).jobs task log
  socket : ∀ {jobs task log} {entries : List Entry}, (∀ e ∈ entries, e.call.isSocket) →
    P jobs task log → P jobs task (log ++ entries)
  waitFails : ∀ {jobs task log} (leftover fmt args pollingStatus),
    task.state.isConnected = true → P jobs task log →
    P jobs { task.fail leftover fmt args with pollingStatus := pollingStatus } log
  /-- a turn begins or continues a run -/
  turn : ∀ {w jobId task currentTime gap io log task'}, WorldOk w →
    g w (.manage jobId currentTime gap io) → w.tasks.lookup jobId = some task →
    log = w.log (w.turn task currentTime gap io).run →
    (task.openRun = none → log = []) → (task.openRun.isSome = true → P w.jobs task log) →
    (w.turn task currentTime gap io).fate = .kept task' → task'.openRun.isSome = true →
    P w.jobs task' (log ++ (w.turn task currentTime gap io).entries jobId currentTime)
  /-- a turn ends a run -/
  ends : ∀ {w jobId task currentTime gap io log}, WorldOk w →
    g w (.manage jobId currentTime gap io) → w.tasks.lookup jobId = some task →
    log = w.log (w.turn task currentTime gap io).run →
    task.openRun = some (w.turn task currentTime gap io).run → P w.jobs task log →
    (w.turn task currentTime gap io).fate.openRun = none →
    Q (w.turn task currentTime gap io).run
      (log ++ (w.turn task currentTime gap io).entries jobId currentTime)

/-- A rule about outcomes is one about turns. -/
theorem LogRule.turnRule {g : World → Label → Prop}
    {P : Table Int CronJob → CronTask → List Entry → Prop} {Q : Int → List Entry → Prop}
    (rule : LogRule g P Q) : TurnRule g P Q where
  idles := rule.idles
  reload := rule.reload
  socket := rule.socket
  waitFails := rule.waitFails
  turn hok hg hold := rule.turn hok hg hold (turn_outcome _ _ _ _ _)
  ends hok hg hold := rule.ends hok hg hold (turn_outcome _ _ _ _ _)

/-- `P` holds of every run under way and `Q` of every run that is over. -/
structure World.Recorded (P : Table Int CronJob → CronTask → List Entry → Prop)
    (Q : Int → List Entry → Prop) (w : World) : Prop where
  opened : ∀ k task r, w.tasks.lookup k = some task → task.openRun = some r →
    P w.jobs task (w.log r)
  finished : ∀ r, .acquire r ∈ w.runLog → (∀ k, w.heldRun k ≠ some r) → Q r (w.log r)

/-- A run that was started is under way in a task, or over. -/
theorem World.Recorded.cases {P : Table Int CronJob → CronTask → List Entry → Prop}
    {Q : Int → List Entry → Prop} {w : World} (h : w.Recorded P Q) {r : Int}
    (hstarted : .acquire r ∈ w.runLog) :
    (∃ k task, w.tasks.lookup k = some task ∧ task.openRun = some r ∧
        P w.jobs task (w.log r)) ∨
      ((∀ k, w.heldRun k ≠ some r) ∧ Q r (w.log r)) := by
  by_cases hheld : ∃ k, w.heldRun k = some r
  · obtain ⟨k, hk⟩ := hheld
    obtain ⟨task, hlookup, hopen⟩ := Option.bind_eq_some_iff.mp hk
    exact Or.inl ⟨k, task, hlookup, hopen, h.opened k task r hlookup hopen⟩
  · have hfree : ∀ k, w.heldRun k ≠ some r := fun k hk => hheld ⟨k, hk⟩
    exact Or.inr ⟨hfree, h.finished r hstarted hfree⟩

section Rule

variable {g : World → Label → Prop} {P : Table Int CronJob → CronTask → List Entry → Prop}
  {Q : Int → List Entry → Prop} (rule : TurnRule g P Q) {w : World}
include rule

/-- Quiet steps that keep the jobs, and reloads. -/
theorem TurnRule.quiet (h : w.Recorded P Q) {w' : World}
    (hquiet : Quiet w w')
    (hjobs : ∀ k task log, w.tasks.lookup k = some task → P w.jobs task log →
      P w'.jobs task log) : w'.Recorded P Q := by
  have hlog : ∀ r, w'.log r = w.log r := fun r => by rw [World.log, hquiet.trace]; rfl
  constructor
  · intro k task' r hnew hopen
    rw [hlog]
    rcases hquiet.task_cases hnew with ⟨task, hold, hidles⟩ | ⟨entry, hidles⟩
    · apply rule.idles hidles
      apply hjobs k task _ hold
      apply h.opened k task r hold
      rw [← hidles.sameRun.openRun, hopen]
    · rw [(idles_init hidles).2.2] at hopen
      exact absurd hopen (by simp)
  · intro r hstarted hfree
    have hrunLog : w'.runLog = w.runLog := by rw [World.runLog, hquiet.trace]; rfl
    rw [hquiet.owns.2] at hfree
    rw [hrunLog] at hstarted
    rw [hlog]
    exact h.finished r hstarted hfree

/-- Waits. -/
theorem TurnRule.wait (hok : WorldOk w) (h : w.Recorded P Q) (io : WaitReplies) :
    (w.waitForEvent io).Recorded P Q := by
  obtain ⟨entries, htrace, hentries⟩ := trace_wait w io
  have hlog := log_append htrace
  have hsocket : ∀ r, ∀ e ∈ entries.filter fun e => e.run = r, e.call.isSocket := by
    intro r e he
    obtain ⟨task, conn, -, -, -, -, hcall⟩ := hentries e (List.mem_of_mem_filter he)
    rw [hcall]
    trivial
  constructor
  · intro k task' r hnew hopen
    obtain ⟨task, hold, hcases, -, -, hrun⟩ := wait_task hok io hnew
    rw [hlog, (wait_rest w io).1]
    apply rule.socket (hsocket r)
    have hP := h.opened k task r hold (by rw [← hrun, hopen])
    have hunready := rule.idles (idles_unready task) hP
    rcases hcases with rfl | rfl
    · exact hunready
    · rcases awaitTask_cases io k task.unready with ⟨ready, heq⟩ |
        ⟨hstate, fmt, args, pollingStatus, heq⟩
      · rw [heq]
        exact rule.idles ⟨_, _, _, ready, rfl⟩ hunready
      · rw [heq]
        exact rule.waitFails _ _ _ _ hstate hunready
  · intro r hstarted hfree
    rw [(wait_owns hok io).2] at hfree
    -- only tasks that hold a run have sockets, so nothing is added to a run that is over
    have hnone : (entries.filter fun e => e.run = r) = [] := by
      rw [List.filter_eq_nil_iff]
      intro e he hrun
      obtain ⟨task, conn, hold, hstate, -, hrunId, -⟩ := hentries e he
      have hflight := isConnected_inFlight hstate
      apply hfree e.jobId
      rw [heldRun_of_lookup hold,
        openRun_of_inFlight hflight ((hok.tasks _ task hold).open_run hflight), ← hrunId]
      simpa using hrun
    rw [runLog_wait] at hstarted
    rw [hlog, hnone, List.append_nil]
    exact h.finished r hstarted hfree

/-- Turns of tasks. -/
theorem TurnRule.manage (hok : WorldOk w) (hfiled : w.Filed) (h : w.Recorded P Q)
    (jobId currentTime : Int) (gap : Nat) (io : Replies)
    (hg : g w (.manage jobId currentTime gap io)) :
    (w.manage jobId currentTime gap io).Recorded P Q := by
  cases hold : w.tasks.lookup jobId with
  | none => rw [manage_none hold]; exact h
  | some task =>
    have houtcome := turn_outcome w task currentTime gap io
    have hlog := log_manage hold currentTime gap io
    have hheld := fun k => (held_manage hold currentTime gap io k).2
    have hjobs : (w.manage jobId currentTime gap io).jobs = w.jobs := by rw [manage_eq hold]
    have hself : w.heldRun jobId = task.openRun := heldRun_of_lookup hold
    have hother : ∀ k, k ≠ jobId →
        (w.manage jobId currentTime gap io).tasks.lookup k = w.tasks.lookup k :=
      fun k hk => lookup_manage_ne hk currentTime gap io
    rcases turn_run hok hfiled hold currentTime gap io with
      ⟨hnil, hnone, hnone'⟩ | ⟨hnew, hown, hexclusive, hafter⟩
    · -- no calls: nothing about any run changes
      have hsame : ∀ r, (w.manage jobId currentTime gap io).log r = w.log r := by
        intro r
        rw [hlog, Turn.entries, hnil]
        simp
      have hheldSame : ∀ k, (w.manage jobId currentTime gap io).heldRun k = w.heldRun k := by
        intro k
        rw [hheld]
        by_cases hk : k = jobId
        · rw [if_pos hk, hnone', hk, hself, hnone]
        · rw [if_neg hk]
      constructor
      · intro k task' r hlookup hopen
        rw [hsame, hjobs]
        by_cases hk : k = jobId
        · subst hk
          rw [← heldRun_of_lookup hlookup, hheldSame, hself, hnone] at hopen
          exact absurd hopen (by simp)
        · rw [hother k hk] at hlookup
          exact h.opened k task' r hlookup hopen
      · intro r hstarted hfree
        rw [runLog_manage hold, hnil, List.flatMap_nil, List.append_nil] at hstarted
        rw [hsame]
        exact h.finished r hstarted fun k => by rw [← hheldSame]; exact hfree k
    · have hprior : task.openRun.isSome = true →
          P w.jobs task (w.log (w.turn task currentTime gap io).run) := by
        intro hsome
        obtain ⟨r, hr⟩ := Option.isSome_iff_exists.mp hsome
        rw [← hown r hr]
        exact h.opened jobId task r hold hr
      constructor
      · intro k task' r hlookup hopen
        rw [hlog, hjobs]
        by_cases hk : k = jobId
        · subst hk
          have hkept := kept_of_lookup hold hlookup
          have hrun : (w.turn task currentTime gap io).run = r := by
            rcases hafter with heq | ⟨heq, -⟩
            · rw [hkept] at heq
              exact Option.some.inj (heq.symm.trans hopen)
            · rw [hkept] at heq
              exact absurd (heq.symm.trans hopen) (by simp)
          rw [if_pos hrun, ← hrun]
          exact rule.turn hok hg hold rfl hnew hprior hkept (by rw [hopen]; rfl)
        · rw [hother k hk] at hlookup
          -- no two tasks hold one run
          have hne : (w.turn task currentTime gap io).run ≠ r := by
            rintro rfl
            exact hexclusive k hk (by rw [heldRun_of_lookup hlookup, hopen])
          rw [if_neg hne, List.append_nil]
          exact h.opened k task' r hlookup hopen
      · intro r hstarted hfree
        rw [hlog]
        by_cases hrun : (w.turn task currentTime gap io).run = r
        · -- the run is over with this turn
          rw [if_pos hrun, ← hrun]
          rcases hafter with heq | ⟨hgiven, hopen⟩
          · refine absurd ?_ (hfree jobId)
            rw [hheld, if_pos rfl, heq, hrun]
          · exact rule.ends hok hg hold rfl hopen (hprior (by rw [hopen]; rfl)) hgiven
        · rw [if_neg hrun, List.append_nil]
          apply h.finished r
          · rw [runLog_manage hold] at hstarted
            rcases List.mem_append.mp hstarted with hmem | hmem
            · exact hmem
            · obtain ⟨call, hcall, hev⟩ := List.mem_flatMap.mp hmem
              exact absurd (houtcome.runEvents_run hcall _ hev).symm hrun
          · intro k hk
            apply hfree k
            rw [hheld]
            by_cases hkj : k = jobId
            · subst hkj
              rw [hself] at hk
              exact absurd (hown r hk).symm hrun
            · rw [if_neg hkj]; exact hk

/-- **The step rule.** -/
theorem TurnRule.step (hok : WorldOk w) (hfiled : w.Filed) (h : w.Recorded P Q) (l : Label)
    (hg : g w l) : (w.step l).Recorded P Q := by
  cases l with
  | invalidate => exact rule.quiet h (quiet_of_tasks rfl rfl rfl rfl) fun _ _ _ _ hP => hP
  | sighup statementTimeout =>
    exact rule.quiet h (quiet_of_tasks rfl rfl rfl rfl) fun _ _ _ _ hP => hP
  | reload source currentTime =>
    exact rule.quiet h (quiet_reload w source currentTime) fun _ _ _ hold hP =>
      rule.reload hok hg hold hP
  | startPending currentTime =>
    exact rule.quiet h (quiet_startPending w currentTime) fun _ _ _ _ hP => hP
  | wait io => exact rule.wait hok h io
  | manage jobId currentTime gap io =>
    exact rule.manage hok hfiled h jobId currentTime gap io hg
  | deleteRuns gone =>
    exact rule.quiet h (quiet_of_tasks rfl rfl rfl rfl) fun _ _ _ _ hP => hP

omit rule in

/-- A new worker has filed nothing. -/
theorem filed_launch (statementTimeout : StatementTimeout) (history : History) :
    (World.launch statementTimeout history).Filed := by
  constructor <;> intro e he <;> exact absurd he (by simp [World.launch])

/-- **The run rule.** `P` and `Q` hold after every run whose steps meet the guard. -/
theorem TurnRule.recorded (statementTimeout : StatementTimeout) (history : History)
    {ls : List Label}
    (hg : Machine.Guarded World.step g (World.launch statementTimeout history) ls) :
    (Machine.run World.step (World.launch statementTimeout history) ls).Recorded P Q := by
  have hlaunch : (World.launch statementTimeout history).Recorded P Q := by
    constructor
    · intro k task r hlookup
      exact absurd hlookup (by simp [World.launch])
    · intro r hstarted
      exact absurd hstarted (by simp [World.runLog, World.launch])
  exact (Machine.guarded_induction (P := fun w => WorldOk w ∧ w.Filed ∧ w.Recorded P Q)
    (fun w l hg h => ⟨h.1.step l, filed_step h.1 h.2.1 l, rule.step h.1 h.2.1 h.2.2 l hg⟩)
    hg ⟨worldOk_launch _ _, filed_launch _ _, hlaunch⟩).2.2

end Rule

/-- The step rule, for outcomes. -/
theorem LogRule.step {g : World → Label → Prop}
    {P : Table Int CronJob → CronTask → List Entry → Prop} {Q : Int → List Entry → Prop}
    (rule : LogRule g P Q) {w : World} (hok : WorldOk w) (hfiled : w.Filed)
    (h : w.Recorded P Q) (l : Label) (hg : g w l) : (w.step l).Recorded P Q :=
  rule.turnRule.step hok hfiled h l hg

/-- The run rule, for outcomes. -/
theorem LogRule.recorded {g : World → Label → Prop}
    {P : Table Int CronJob → CronTask → List Entry → Prop} {Q : Int → List Entry → Prop}
    (rule : LogRule g P Q) (statementTimeout : StatementTimeout) (history : History)
    {ls : List Label}
    (hg : Machine.Guarded World.step g (World.launch statementTimeout history) ls) :
    (Machine.run World.step (World.launch statementTimeout history) ls).Recorded P Q :=
  rule.turnRule.recorded statementTimeout history hg

end NedoCron
