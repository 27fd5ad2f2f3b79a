import NedoCron.RunHistory
import NedoCron.TimeLimit
import Mathlib.Data.List.Induction

namespace NedoCron

/-!
# nedo_cron — the status `timeout`

`timedOut` is set at the worker's own attempt to cancel a query and at a result with SQLSTATE
57014, whoever cancelled; the ERROR step reads it for the status of the run.

* `turn_timedOut` — a turn sets the flag exactly at one of the two;
* `timedOut_rule` — so the flag tells whether one of them is in the log of the run;
* `limitPassed_of_attempt` — an attempt to cancel comes after the limit has passed;
* `finished_timedOut` — what it means that a run is recorded as `timeout` or as `failed`.
-/

/-! ### What counts as a timeout -/

/-- `PQgetCancel`, the first call of an attempt to cancel a query. -/
def Call.attemptsCancel : Call → Bool
  | .use function _ => function = .getCancel
  | _ => false

/-- The result of a cancelled query: an error with SQLSTATE 57014. -/
def QueryResult.isCanceled (result : QueryResult) : Bool :=
  result.status.isError && result.sqlState = some queryCanceled

/-- The result of a cancelled query is read. -/
def Call.readsCanceled : Call → Bool
  | .getResult _ result _ => result.any QueryResult.isCanceled
  | _ => false

/-- The run counts as timed out from this call on. -/
def Call.timesOut (call : Call) : Bool := call.attemptsCancel || call.readsCanceled

/-- A time-out among uses is a request to cancel. -/
theorem timesOut_uses (functions : List PqFunction) (conn : Option Nat) :
    (uses functions conn).any Call.timesOut = functions.contains .getCancel := by
  induction functions with
  | nil => rfl
  | cons f functions ih =>
    show (Call.timesOut (.use f conn) || (uses functions conn).any Call.timesOut) = _
    rw [ih, List.contains_cons]
    cases f <;> rfl

/-- Functions that request no cancel time nothing out. -/
theorem timesOut_of_not_requestsCancel {functions : List PqFunction}
    (h : ∀ f ∈ functions, f.requestsCancel = false) (conn : Option Nat) :
    (uses functions conn).any Call.timesOut = false := by
  rw [timesOut_uses, ← Bool.not_eq_true, List.contains_iff_mem]
  intro hmem
  exact absurd (h _ hmem) (by decide)

/-! ### Turns -/

/-- Reading results sets the flag at the result of a cancelled query. -/
theorem readResults_timedOut (conn : Option Nat) (leftover : CString) (lastBusy : Bool)
    (task : CronTask) (results : List (QueryResult × Bool)) :
    (readResults conn leftover lastBusy task results).1.timedOut =
      (task.timedOut ||
        (readResults conn leftover lastBusy task results).2.any Call.timesOut) := by
  induction results with
  | nil => simp [readResults, Call.timesOut, Call.attemptsCancel, Call.readsCanceled]
  | cons r results ih =>
    obtain ⟨result, busy⟩ := r
    have hcall : Call.timesOut (.getResult conn (some result) busy) = result.isCanceled := rfl
    unfold readResults
    dsimp only
    -- an error ends the loop, and is a time-out if the query was cancelled
    by_cases herror : result.status.isError = true
    · rw [if_pos herror, List.any_cons, List.any_nil, Bool.or_false, hcall,
        QueryResult.isCanceled, herror, Bool.true_and]
      by_cases hstate : result.sqlState = some queryCanceled
      · rw [if_pos hstate, decide_eq_true hstate, Bool.or_true]
        rfl
      · rw [if_neg hstate, decide_eq_false hstate, Bool.or_false]
        rfl
    · -- no other result is
      have hnot : result.isCanceled = false := by
        rw [QueryResult.isCanceled, eq_false_of_ne_true herror, Bool.false_and]
      rw [if_neg herror]
      by_cases hcopy : result.status.isCopy = true
      · rw [if_pos hcopy, List.any_cons, List.any_nil, hcall, hnot, Bool.or_false, Bool.or_false]
        rfl
      · rw [if_neg hcopy, List.any_cons, hcall, hnot, Bool.false_or]
        exact ih

/-- Reading input, after the calls made before. -/
theorem readInput_timedOut (task : CronTask) (io : Replies) (calls : List Call) :
    ∃ task' rest, (readInput task io calls).fate = .kept task' ∧
      (readInput task io calls).calls = calls ++ rest ∧
      task'.timedOut = (task.timedOut || rest.any Call.timesOut) := by
  unfold readInput
  split
  · exact ⟨task, [], rfl, (List.append_nil calls).symm, (Bool.or_false _).symm⟩
  · split
    · refine ⟨_, _, rfl, rfl, ?_⟩
      rw [timesOut_of_not_requestsCancel (by decide), Bool.or_false]
      rfl
    · split
      · refine ⟨_, _, rfl, rfl, ?_⟩
        rw [timesOut_of_not_requestsCancel (by decide), Bool.or_false]
      · -- the results are read
        have hread := readResults_timedOut task.conn io.leftover io.lastBusy task io.results
        have hplain :=
          @timesOut_of_not_requestsCancel [.consumeInput, .isBusy] (by decide) task.conn
        unfold finishRunning
        dsimp only
        split
        · refine ⟨_, _, rfl, List.append_assoc _ _ _, ?_⟩
          simp only [Turn.keep, List.any_append, hplain]
          simpa [Call.timesOut, Call.attemptsCancel, Call.readsCanceled] using hread
        · refine ⟨_, _, rfl, List.append_assoc _ _ _, ?_⟩
          simp only [Turn.keep, List.any_append, hplain]
          simpa [Call.timesOut, Call.attemptsCancel, Call.readsCanceled] using hread

/-- RUNNING sets the flag at an attempt to cancel and at the result of a cancelled query. -/
theorem manageRunning_timedOut (task : CronTask) (currentTime : Int) (io : Replies) :
    ∃ task', (manageRunning task currentTime io).fate = .kept task' ∧
      task'.timedOut =
        (task.timedOut || (manageRunning task currentTime io).calls.any Call.timesOut) := by
  unfold manageRunning
  split
  · exact ⟨_, rfl, (Bool.or_false _).symm⟩
  · split
    · refine ⟨_, rfl, ?_⟩
      rw [Turn.keep, timesOut_of_not_requestsCancel (by decide), Bool.or_false]
      rfl
    · split
      -- the deadline has passed: each of these calls `PQgetCancel`
      · split
        · refine ⟨_, rfl, ?_⟩
          rw [Turn.keep, timesOut_uses]
          exact (Bool.or_true _).symm
        · split
          · refine ⟨_, rfl, ?_⟩
            rw [Turn.keep, timesOut_uses]
            exact (Bool.or_true _).symm
          · obtain ⟨task', rest, hkept, hcalls, htimedOut⟩ := readInput_timedOut
              { task with
                cancelRequested := true
                timedOut := true
                runDeadline := 0
                pollingStatus := .reading }
              io (uses [.status, .getCancel, .cancel, .freeCancel] task.conn)
            refine ⟨task', hkept, ?_⟩
            rw [hcalls, List.any_append, timesOut_uses, htimedOut]
            exact (Bool.or_true _).symm
      · obtain ⟨task', rest, hkept, hcalls, htimedOut⟩ :=
          readInput_timedOut task io (uses [.status] task.conn)
        refine ⟨task', hkept, ?_⟩
        rw [hcalls, List.any_append, timesOut_of_not_requestsCancel (by decide), htimedOut,
          Bool.false_or]

/-- A task counts as timed out only once its query was sent. -/
def CronTask.TimedOutLate (task : CronTask) : Prop :=
  task.timedOut = true → task.state = .running ∨ task.state = .error ∨ task.state = .done

/-- Before RUNNING nothing has timed out. -/
theorem CronTask.TimedOutLate.timedOut_eq {task : CronTask} (h : task.TimedOutLate)
    (hrunning : task.state ≠ .running) (herror : task.state ≠ .error)
    (hdone : task.state ≠ .done) : task.timedOut = false := by
  rw [← Bool.not_eq_true]
  intro hflag
  rcases h hflag with heq | heq | heq
  · exact hrunning heq
  · exact herror heq
  · exact hdone heq

section Outcomes

variable {context : StepContext} {io : Replies} {task : CronTask} {turn : Turn}

/-- A turn sets the flag only in RUNNING. -/
theorem Outcome.timedOutLate (houtcome : Outcome context io task turn) (h : task.TimedOutLate)
    {task' : CronTask} (hkept : turn.fate = .kept task') : task'.TimedOutLate := by
  -- the states before the query is sent
  have hclear : ∀ {state : CronTaskState}, task.state = state →
      (state ≠ .running ∧ state ≠ .error ∧ state ≠ .done) → task.timedOut ≠ true := by
    rintro state rfl ⟨hrunning, herror, hdone⟩
    rw [h.timedOut_eq hrunning herror hdone]
    exact Bool.false_ne_true
  cases houtcome with
  | removed hstate hactive => cases hkept
  | idle hstate => cases hkept; exact h
  | due hstate hpending =>
    cases hkept
    exact fun hflag => absurd hflag (hclear hstate (by decide))
  | opened job hjob hstate =>
    cases hkept
    exact fun hflag => absurd hflag (hclear hstate (by decide))
  | waits hstate functions hcancel pollingStatus => cases hkept; exact h
  | connected hstate =>
    cases hkept
    exact fun hflag => absurd hflag (hclear hstate (by decide))
  | sent job hjob hstate => cases hkept; exact fun _ => Or.inl rfl
  | runs hstate base functions more hchecked hcancel =>
    cases hkept
    exact fun _ => Or.inl (hchecked.state_eq.trans hstate)
  | succeeded hstate base functions more hchecked hcancel hread =>
    cases hkept
    exact fun _ => Or.inr (Or.inr rfl)
  | closed base hdone hbase =>
    obtain ⟨-, rfl⟩ := manageError_kept hkept
    exact fun _ => Or.inr (Or.inr rfl)
  | reset hstate =>
    unfold manageDone at hkept
    split at hkept <;> (cases hkept; exact fun hflag => absurd hflag Bool.false_ne_true)
  | _ => cases hkept; exact fun _ => Or.inr (Or.inl rfl)

/-- A turn outside of RUNNING that leaves a run open neither sets the flag nor finds a reason. -/
theorem Outcome.timedOut_eq (houtcome : Outcome context io task turn) (h : task.TimedOutLate)
    (hrunning : task.state ≠ .running) {task' : CronTask} (hkept : turn.fate = .kept task')
    (hflight : task'.state.inFlight = true) :
    task'.timedOut = task.timedOut ∧ turn.calls.any Call.timesOut = false := by
  cases houtcome with
  | removed hstate hactive => cases hkept
  | idle hstate => cases hkept; exact ⟨rfl, rfl⟩
  | due hstate hpending => cases hkept; exact ⟨rfl, rfl⟩
  | refused job hjob hstate fmt args => cases hkept; exact ⟨rfl, rfl⟩
  -- before RUNNING no cancel is requested
  | unusable job hjob hstate functions hcancel fmt args =>
    cases hkept
    exact ⟨rfl, timesOut_of_not_requestsCancel hcancel _⟩
  | opened job hjob hstate =>
    cases hkept
    exact ⟨rfl, timesOut_of_not_requestsCancel (by decide) _⟩
  | failed hstate functions hcancel fmt args =>
    cases hkept
    exact ⟨rfl, timesOut_of_not_requestsCancel hcancel _⟩
  | waits hstate functions hcancel pollingStatus =>
    cases hkept
    exact ⟨rfl, timesOut_of_not_requestsCancel hcancel _⟩
  | connected hstate =>
    cases hkept
    refine ⟨rfl, ?_⟩
    rw [Turn.keep, List.any_append, timesOut_of_not_requestsCancel (by decide)]
    rfl
  | sent job hjob hstate =>
    cases hkept
    -- the flag is cleared when the query is sent, and it was not set
    refine ⟨(h.timedOut_eq ?_ ?_ ?_).symm, ?_⟩
    · exact hrunning
    · rw [hstate]; decide
    · rw [hstate]; decide
    · rw [Turn.keep, List.any_append, timesOut_of_not_requestsCancel (by decide)]
      rfl
  | unsent job hjob hstate fmt args =>
    cases hkept
    refine ⟨rfl, ?_⟩
    rw [Turn.keep, List.any_append, List.any_append, timesOut_of_not_requestsCancel (by decide),
      timesOut_of_not_requestsCancel (by decide)]
    rfl
  | closed base hdone hbase =>
    obtain ⟨-, rfl⟩ := manageError_kept hkept
    cases hflight
  | reset hstate =>
    unfold manageDone at hkept
    split at hkept <;> (cases hkept; cases hflight)
  | notCancelled hstate => exact absurd hstate hrunning
  | runs hstate => exact absurd hstate hrunning
  | unread hstate => exact absurd hstate hrunning
  | succeeded hstate => exact absurd hstate hrunning
  | resultFailed hstate => exact absurd hstate hrunning

/-- A finishing update reads the flag, in a turn that gives no reason of its own. -/
theorem Outcome.finish_cases (houtcome : Outcome context io task turn) {r : Int}
    {status : RunStatus} {message : Option CString} {endTime : Int}
    (hcall : .finishRun r status message endTime ∈ turn.calls) :
    status = .succeeded ∨ (status = (if task.timedOut then .timeout else .failed) ∧
      turn.calls.any Call.timesOut = false) := by
  have hsql : .finishRun r status message endTime ∈ statements turn.calls :=
    List.mem_filter.mpr ⟨hcall, rfl⟩
  cases houtcome with
  | succeeded hstate base functions more hchecked hcancel hread =>
    simp [Turn.keep, Call.isStatement] at hsql
    exact Or.inl hsql.2.1
  | closed base hdone hbase =>
    have hbase' : base.timedOut = task.timedOut := by
      rcases hbase with ⟨rfl, -⟩ | ⟨-, rfl⟩ <;> rfl
    refine Or.inr ⟨?_, List.any_eq_false.mpr fun call hmem => ?_⟩
    · rcases mem_manageError hcall with heq | heq
      · obtain ⟨-, rfl, -, -⟩ := Call.finishRun.inj heq
        rw [hbase']
      · cases heq
    · rcases mem_manageError hmem with rfl | rfl <;>
        simp [Call.timesOut, Call.attemptsCancel, Call.readsCanceled]
  | reset hstate => exact absurd hcall (by simp [manageDone, Turn.keep])
  | _ => simp [Turn.keep, Call.isStatement] at hsql

end Outcomes

/-- **Every step** keeps this: a run starts without the flag, and sending the query clears it. -/
theorem timedOutLate_rule : TaskRule (fun _ _ => True) CronTask.TimedOutLate where
  init _ _ := fun h => absurd h Bool.false_ne_true
  idles := by
    rintro task task' ⟨_, _, _, _, rfl⟩ h
    exact h
  waitFails _ _ _ _ _ _ := fun _ => Or.inr (Or.inl rfl)
  turn _ h hkept := (turn_outcome _ _ _ _ _).timedOutLate h hkept

/-- **A turn** that leaves a run open sets the flag exactly at an attempt to cancel or at the result
    of a cancelled query. -/
theorem turn_timedOut {w : World} {task : CronTask} (h : task.TimedOutLate) {currentTime : Int}
    {gap : Nat} {io : Replies} {task' : CronTask}
    (hkept : (w.turn task currentTime gap io).fate = .kept task')
    (hflight : task'.state.inFlight = true) :
    task'.timedOut =
      (task.timedOut || (w.turn task currentTime gap io).calls.any Call.timesOut) := by
  by_cases hrunning : task.state = .running
  · cases hjob : getCronJob w.jobs task.jobId with
    | none =>
      -- without a job the run is over with this turn
      have hdone : task'.state = .done := state_of_jobless hjob (by rw [hrunning]; decide) hkept
      rw [hdone] at hflight
      cases hflight
    | some job =>
      obtain ⟨task'', hkept', htimedOut⟩ := manageRunning_timedOut task currentTime io
      rw [turn_running hjob hrunning] at hkept ⊢
      rw [hkept] at hkept'
      rw [Fate.kept.inj hkept', htimedOut]
  · obtain ⟨hsame, hnone⟩ :=
      (turn_outcome w task currentTime gap io).timedOut_eq h hrunning hkept hflight
    rw [hsame, hnone, Bool.or_false]

/-! ### Runs -/

/-- What the status of a run tells of its log. -/
structure TellsTimeout (r : Int) (log : List Entry) : Prop where
  timeout : ∀ e ∈ log, ∀ message endTime, e.call = .finishRun r .timeout message endTime →
    ∃ c, [c, e].Sublist log ∧ c.call.timesOut = true
  failed : ∀ e ∈ log, ∀ message endTime, e.call = .finishRun r .failed message endTime →
    ∀ c ∈ log, c.call.timesOut = false

/-- A run under way has no finishing update. -/
theorem Begun.not_finish {r jobId : Int} {calls : List Call} (h : Begun r jobId (statements calls))
    {call : Call} (hcall : call ∈ calls) (r' : Int) (status : RunStatus)
    (message : Option CString) (endTime : Int) : call ≠ .finishRun r' status message endTime := by
  rintro rfl
  have hsql : .finishRun r' status message endTime ∈ statements calls :=
    List.mem_filter.mpr ⟨hcall, rfl⟩
  obtain ⟨database, userName, startTime, heq | ⟨pid, heq⟩⟩ := h <;> simp [heq] at hsql

/-- A time-out among the entries of a turn is one among its calls. -/
theorem any_timesOut_entries (turn : Turn) (jobId currentTime : Int) :
    (turn.entries jobId currentTime).any (fun e => e.call.timesOut) =
      turn.calls.any Call.timesOut := by
  rw [Turn.entries, List.any_map]
  rfl

/-- **Every step keeps the flag in line with the log.** -/
theorem timedOut_rule (history : History) :
    TurnRule (fun w _ => HistoryOk history w ∧ w.All CronTask.TimedOutLate)
      (fun _ task log => task.timedOut = log.any fun e => e.call.timesOut) TellsTimeout where
  idles := by
    rintro jobs task task' log ⟨_, _, _, _, rfl⟩ h
    exact h
  reload := fun _ _ _ h => h
  socket := by
    intro jobs task log entries hsocket h
    have hnone : (entries.any fun e => e.call.timesOut) = false := by
      rw [List.any_eq_false]
      intro e he
      have hs := hsocket e he
      cases hc : e.call with
      | use f conn =>
        rw [hc] at hs
        cases f <;> first | exact (hs : False).elim | exact Bool.false_ne_true
      | _ => rw [hc] at hs; exact (hs : False).elim
    rw [List.any_append, hnone, Bool.or_false]
    exact h
  waitFails := fun _ _ _ _ _ h => h
  turn := by
    intro w jobId task currentTime gap io log task' hok hg hold hlog hfresh hprior hkept hopen
    have hlate := hg.2 jobId task hold
    have hflight : task'.state.inFlight = true := by
      by_contra hnot
      rw [openRun_of_not_inFlight (by simpa using hnot)] at hopen
      cases hopen
    have hturn := turn_timedOut hlate hkept hflight
    rw [List.any_append, any_timesOut_entries, hturn]
    cases hrun : task.openRun with
    | some r => rw [hprior (by rw [hrun]; rfl)]
    | none =>
      -- the first turn of a run
      have hstart : task.timedOut = false := by
        rcases (turn_outcome w task currentTime gap io).life (hok.tasks jobId task hold)
          (nextRunId_pos w.history gap) with ⟨-, -, hnone⟩ | ⟨hstate, -⟩ | ⟨hheld, -⟩
        · rw [hkept] at hnone
          rw [show task'.openRun = none from hnone] at hopen
          cases hopen
        · apply hlate.timedOut_eq <;> (rw [hstate]; decide)
        · rw [hrun] at hheld
          cases hheld
      rw [hfresh hrun, hstart]
      rfl
  ends := by
    intro w jobId task currentTime gap io log hok hg hold hlog hheld h hgiven
    have houtcome := turn_outcome w task currentTime gap io
    have hbegun := (hg.1.recorded.opened jobId task _ hold hheld).begun
    -- the finishing update is made by this turn
    have hlast : ∀ e ∈ log ++ (w.turn task currentTime gap io).entries jobId currentTime,
        ∀ r status message endTime, e.call = .finishRun r status message endTime →
          e ∈ (w.turn task currentTime gap io).entries jobId currentTime ∧
          e.call ∈ (w.turn task currentTime gap io).calls := by
      intro e he r status message endTime hcall
      rcases List.mem_append.mp he with he | he
      · rw [hlog] at he
        exact absurd hcall (hbegun.not_finish (List.mem_map.mpr ⟨e, he, rfl⟩) _ _ _ _)
      · obtain ⟨call, hmem, rfl⟩ := List.mem_map.mp he
        exact ⟨he, hmem⟩
    constructor
    · intro e he message endTime hcall
      obtain ⟨he', hmem⟩ := hlast e he _ _ _ _ hcall
      rw [hcall] at hmem
      rcases houtcome.finish_cases hmem with heq | ⟨heq, -⟩
      · cases heq
      · have hflag : task.timedOut = true := by
          cases hf : task.timedOut with
          | true => rfl
          | false => rw [hf] at heq; cases heq
        rw [h, List.any_eq_true] at hflag
        obtain ⟨c, hc, hreason⟩ := hflag
        exact ⟨c, List.Sublist.append (List.singleton_sublist.mpr hc)
          (List.singleton_sublist.mpr he'), hreason⟩
    · intro e he message endTime hcall c hc
      obtain ⟨he', hmem⟩ := hlast e he _ _ _ _ hcall
      rw [hcall] at hmem
      rcases houtcome.finish_cases hmem with heq | ⟨heq, hnone⟩
      · cases heq
      · have hflag : task.timedOut = false := by
          cases hf : task.timedOut with
          | true => rw [hf] at heq; cases heq
          | false => rfl
        rw [h] at hflag
        rw [← any_timesOut_entries _ jobId currentTime] at hnone
        rcases List.mem_append.mp hc with hc | hc
        · exact eq_false_of_ne_true (List.any_eq_false.mp hflag c hc)
        · exact eq_false_of_ne_true (List.any_eq_false.mp hnone c hc)

/-! ### The limit -/

/-- The query of the run `r` is sent by the turn of a task. -/
def World.SendsAt (w : World) (k now : Int) (gap : Nat) (io : Replies) (r : Int) : Prop :=
  ∃ task, w.tasks.lookup k = some task ∧ (w.turn task now gap io).run = r ∧
    ∃ call ∈ (w.turn task now gap io).calls, call.startsRunning = true

/-- At `time`, the statement timeout that was set when the query of the run `r` was sent has passed
    since then. -/
def LimitPassed (statementTimeout : StatementTimeout) (history : History) (ls : List Label)
    (r time : Int) : Prop :=
  ∃ before k now gap io after, ls = before ++ .manage k now gap io :: after ∧
    (Machine.run World.step (World.launch statementTimeout history) before).SendsAt k now gap io r ∧
    now + (Machine.run World.step (World.launch statementTimeout history)
      before).statementTimeout.ms * 1000 ≤ time

/-- What has passed has passed at any later time. -/
theorem LimitPassed.later {statementTimeout : StatementTimeout} {history : History}
    {ls : List Label} {r time time' : Int} (h : LimitPassed statementTimeout history ls r time)
    (hle : time ≤ time') (l : Label) :
    LimitPassed statementTimeout history (ls ++ [l]) r time' := by
  obtain ⟨before, k, now, gap, io, after, rfl, hsends, hlimit⟩ := h
  exact ⟨before, k, now, gap, io, after ++ [l], by simp, hsends, le_trans hlimit hle⟩

/-- The turn of a task in RUNNING, or one that gets there, works for its run. -/
theorem run_of_running {w : World} (hok : WorldOk w) {k : Int} {task : CronTask}
    (hold : w.tasks.lookup k = some task) (hflight : task.state.inFlight = true)
    (currentTime : Int) (gap : Nat) (io : Replies) :
    (w.turn task currentTime gap io).run = task.runId := by
  have hopen := openRun_of_inFlight hflight ((hok.tasks k task hold).open_run hflight)
  rcases (turn_outcome w task currentTime gap io).life (hok.tasks k task hold)
    (nextRunId_pos w.history gap) with ⟨-, hnone, -⟩ | ⟨-, hnone, -⟩ | ⟨hrun, -⟩
  · rw [hopen] at hnone; cases hnone
  · rw [hopen] at hnone; cases hnone
  · exact (Option.some.inj (hopen.symm.trans hrun)).symm

/-- **The deadline of a running query** is the limit that was set when it was sent. -/
theorem limitPassed_of_running (statementTimeout : StatementTimeout) (history : History)
    (ls : List Label) {k : Int} {task : CronTask}
    (hlookup : (Machine.run World.step (World.launch statementTimeout history)
      ls).tasks.lookup k = some task)
    (hrunning : task.state = .running) (hfree : task.cancelRequested = false) :
    LimitPassed statementTimeout history ls task.runId task.runDeadline := by
  induction ls using List.reverseRecOn generalizing k task with
  | nil => exact absurd hlookup (by simp [World.launch])
  | append_singleton ls l ih =>
    have hok : WorldOk (Machine.run World.step (World.launch statementTimeout history) ls) :=
      (worldOk_launch statementTimeout history).run ls
    have hok' := hok.step l
    rw [Machine.run_append, Machine.run_cons, Machine.run_nil] at hlookup
    generalize hw : Machine.run World.step (World.launch statementTimeout history) ls = w at *
    rcases task_step hlookup with ⟨old, hold, hstep⟩ | ⟨source, currentTime, -, -, rfl⟩
    · rcases hstep.run_cases with ⟨_, _, _, _, rfl⟩ | ⟨_, _, _, _, -, rfl⟩ |
        ⟨now, gap, io, rfl, hkept⟩
      · exact (ih hold hrunning hfree).later (le_refl _) l
      · cases hrunning
      · have houtcome := turn_outcome w old now gap io
        obtain ⟨hrun, ⟨hsending, ⟨command, hsent⟩, hdeadline⟩ |
          ⟨hstate, hrequested | ⟨rfl, -⟩⟩⟩ := houtcome.running_cases hkept hrunning
        · -- the query is sent by this step
          have hsame : task.runId = old.runId := by
            have hflight : old.state.inFlight = true := by rw [hsending]; rfl
            have hopen : task.openRun = some task.runId :=
              openRun_of_inFlight (by rw [hrunning]; rfl)
                ((hok'.tasks k task hlookup).open_run (by rw [hrunning]; rfl))
            rcases houtcome.life (hok.tasks k old hold) (nextRunId_pos w.history gap) with
              ⟨-, -, hnone⟩ | ⟨hstart, -⟩ | ⟨hheld, hfate | hfate⟩
            · rw [hkept] at hnone
              rw [show task.openRun = none from hnone] at hopen
              cases hopen
            · rw [hsending] at hstart; cases hstart
            · rw [hkept] at hfate
              exact (Option.some.inj (hopen.symm.trans hfate)).trans hrun
            · rw [hkept] at hfate
              rw [show task.openRun = none from hfate] at hopen
              cases hopen
          refine ⟨ls, k, now, gap, io, [], rfl, ?_, ?_⟩
          · rw [hw, hsame]
            exact ⟨old, hold, hrun, _, hsent, rfl⟩
          · rw [hw, hdeadline]
            exact le_refl _
        · rw [hfree] at hrequested; cases hrequested
        · exact (ih hold hstate hfree).later (le_refl _) _
    · cases hrunning

/-- **An attempt to cancel** comes after the limit has passed. -/
theorem limitPassed_of_attempt (statementTimeout : StatementTimeout) (history : History)
    (ls : List Label) {e : Entry}
    (he : e ∈ (Machine.run World.step (World.launch statementTimeout history) ls).trace)
    (hattempt : e.call.attemptsCancel = true) :
    LimitPassed statementTimeout history ls e.run e.time := by
  induction ls using List.reverseRecOn with
  | nil => exact absurd he (by simp [World.launch])
  | append_singleton ls l ih =>
    rw [Machine.run_append, Machine.run_cons, Machine.run_nil, trace_eq_recorded] at he
    rcases List.mem_append.mp he with he | he
    · exact (ih he).later (le_refl _) l
    rcases mem_recorded he with hsocket | ⟨task, gap, io, rfl, hlookup, hrun, hcall⟩
    · cases hc : e.call with
      | use f conn =>
        rw [hc] at hsocket hattempt
        cases f <;> first | exact (hsocket : False).elim | cases hattempt
      | _ => rw [hc] at hsocket; exact (hsocket : False).elim
    · -- a turn that attempts a cancel finds the deadline of its query passed
      have hok : WorldOk (Machine.run World.step (World.launch statementTimeout history) ls) :=
        (worldOk_launch statementTimeout history).run ls
      rcases (turn_outcome _ task e.time gap io).cancel_cases
        (show PqFunction.getCancel.requestsCancel = true from rfl) with
        hzero | ⟨hrunning, hoverdue, -⟩
      · rw [List.countP_eq_zero] at hzero
        refine absurd ?_ (hzero e.call hcall)
        cases hc : e.call with
        | use f conn => rw [hc] at hattempt; exact hattempt
        | _ => rw [hc] at hattempt; cases hattempt
      · rw [hrun, run_of_running hok hlookup (by rw [hrunning]; rfl)]
        unfold CronTask.overdue at hoverdue
        rw [Bool.and_eq_true, Bool.and_eq_true, timestampDifferenceExceeds_zero] at hoverdue
        obtain ⟨⟨hpassed, -⟩, hfree⟩ := hoverdue
        exact (limitPassed_of_running statementTimeout history ls hlookup hrunning
          (by simpa using hfree)).later (of_decide_eq_true hpassed) _

/-! ### What the status says -/

/-- **The statuses `timeout` and `failed`.**  In every run of the worker, and for whatever libpq
    returns: if a run is recorded as `timeout`, then before that the result of a cancelled query was
    read, or the worker had attempted to cancel the query, at a clock reading at which the
    statement timeout had passed since it was sent.  If a run is recorded as `failed`, neither has
    happened. -/
theorem finished_timedOut (statementTimeout : StatementTimeout) (history : History)
    (ls : List Label) (r : Int) :
    let w := Machine.run World.step (World.launch statementTimeout history) ls
    (∀ e ∈ w.log r, ∀ message endTime, e.call = .finishRun r .timeout message endTime →
      ∃ c, [c, e].Sublist (w.log r) ∧ (c.call.readsCanceled = true ∨
        (c.call.attemptsCancel = true ∧
          LimitPassed statementTimeout history ls r c.time))) ∧
    ∀ e ∈ w.log r, ∀ message endTime, e.call = .finishRun r .failed message endTime →
      ∀ c ∈ w.log r, c.call.readsCanceled = false ∧ c.call.attemptsCancel = false := by
  intro w
  have hok := historyOk_run statementTimeout history ls
  have hguard : Machine.Guarded World.step
      (fun w _ => HistoryOk history w ∧ w.All CronTask.TimedOutLate)
      (World.launch statementTimeout history) ls := by
    apply Machine.guarded_of_split
    intro before l after _
    exact ⟨historyOk_run statementTimeout history before,
      timedOutLate_rule.run statementTimeout history
        (Machine.guarded_of_forall _ fun _ _ => trivial)⟩
  have hrecorded := (timedOut_rule history).recorded statementTimeout history hguard
  have htells : TellsTimeout r (w.log r) := by
    by_cases hstarted : .acquire r ∈ w.runLog
    · rcases hok.recorded.cases hstarted with ⟨k, task, -, -, hunder⟩ | ⟨hfree, -⟩
      · -- the run is under way: nothing is recorded yet
        have hnot := fun e (he : e ∈ w.log r) =>
          hunder.begun.not_finish (List.mem_map.mpr ⟨e, he, rfl⟩)
        exact ⟨fun e he _ _ hcall => absurd hcall (hnot e he _ _ _ _),
          fun e he _ _ hcall => absurd hcall (hnot e he _ _ _ _)⟩
      · exact hrecorded.finished r hstarted hfree
    · rw [log_eq_nil hok.filed hstarted]
      exact ⟨fun e he => absurd he (by simp), fun e he => absurd he (by simp)⟩
  constructor
  · intro e he message endTime hcall
    obtain ⟨c, hsub, hreason⟩ := htells.timeout e he message endTime hcall
    refine ⟨c, hsub, ?_⟩
    rw [Call.timesOut, Bool.or_eq_true] at hreason
    rcases hreason with hattempt | hcanceled
    · obtain ⟨hmem, hrun⟩ := mem_log (hsub.subset List.mem_cons_self)
      rw [← hrun]
      exact Or.inr ⟨hattempt, limitPassed_of_attempt statementTimeout history ls hmem hattempt⟩
    · exact Or.inl hcanceled
  · intro e he message endTime hcall c hc
    have hnone := htells.failed e he message endTime hcall c hc
    rw [Call.timesOut, Bool.or_eq_false_iff] at hnone
    exact ⟨hnone.2, hnone.1⟩

/-- A query that another session cancels at once. -/
def canceledRun : List Label :=
  rereadRun (secondsRow (ascii "alice") (ascii "SELECT 1"))
    (secondsRow (ascii "alice") (ascii "SELECT 1")) ++
  [.manage 7 6000000 0
    { smoothReplies with
      isBusy := false
      results := [(⟨.fatalError, some queryCanceled,
        ascii "ERROR:  canceling statement due to user request"⟩, false)] },
    .manage 7 6000000 0 smoothReplies]

/-- The run is recorded as `timeout`. -/
def canceledEntry : Entry :=
  ⟨7, 1, 6000000, .finishRun 1 .timeout
    (some (ascii "ERROR:  canceling statement due to user request")) 0⟩

/-- The theorem at this run. -/
theorem finished_timedOut_canceled :
    ∃ c ∈ (Machine.run World.step (World.launch defaultTimeout emptyHistory) canceledRun).log 1,
      c.call.readsCanceled = true ∨ (c.call.attemptsCancel = true ∧
        LimitPassed defaultTimeout emptyHistory canceledRun 1 c.time) := by
  obtain ⟨c, hsub, hreason⟩ := (finished_timedOut defaultTimeout emptyHistory canceledRun 1).1
    canceledEntry (by decide +kernel) _ _ rfl
  exact ⟨c, hsub.subset List.mem_cons_self, hreason⟩

/-! ### Cancelled by others -/

/-- The clock readings of a step. -/
def Label.readings : Label → List Int
  | .reload _ currentTime => [currentTime]
  | .startPending currentTime => [currentTime]
  | .wait io => [io.timestamp]
  | .manage _ currentTime _ io => [currentTime, io.timestamp]
  | _ => []

/-- The run `r` is recorded as `timeout`. -/
def World.TimedOut (w : World) (r : Int) : Prop :=
  ∃ e ∈ w.log r, ∃ message endTime, e.call = .finishRun r .timeout message endTime

/-- What the status `timeout` might be taken to say of a run. -/
structure TimeoutMeansLimit (statementTimeout : StatementTimeout) (history : History)
    (ls : List Label) (r : Int) : Prop where
  /-- at some clock reading the limit has passed -/
  passed : (Machine.run World.step (World.launch statementTimeout history) ls).TimedOut r →
    ∃ l ∈ ls, ∃ time ∈ l.readings, LimitPassed statementTimeout history ls r time
  /-- the worker has attempted to cancel the query, or the result of a cancelled query was read -/
  cause : (Machine.run World.step (World.launch statementTimeout history) ls).TimedOut r →
    ∃ c ∈ (Machine.run World.step (World.launch statementTimeout history) ls).log r,
      c.call.timesOut = true
  /-- an error with another SQLSTATE, or before the limit, is recorded otherwise -/
  others : ∀ e ∈ (Machine.run World.step (World.launch statementTimeout history) ls).log r,
    ∀ conn result busy, e.call = .getResult conn (some result) busy →
      result.status.isError = true →
      (result.sqlState ≠ some queryCanceled ∨
        ¬LimitPassed statementTimeout history ls r e.time) →
      ¬(Machine.run World.step (World.launch statementTimeout history) ls).TimedOut r

/-- A query that another session cancels counts as timed out long before the limit. -/
theorem not_timeoutMeansLimit :
    ¬TimeoutMeansLimit defaultTimeout emptyHistory canceledRun 1 := by
  intro h
  obtain ⟨l, hl, time, htime, before, k, now, gap, io, after, heq, -, hlimit⟩ :=
    h.passed ⟨canceledEntry, by decide +kernel, _, _, rfl⟩
  have hsighup : ∀ l ∈ canceledRun, ∀ s, l ≠ .sighup s := by
    rintro l hl s rfl
    simp [canceledRun, rereadRun, untilStart, afterStart] at hl
  have hsetting : (Machine.run World.step (World.launch defaultTimeout emptyHistory)
      before).statementTimeout = defaultTimeout := by
    refine (Machine.guarded_induction (g := fun _ l => ∀ s, l ≠ .sighup s)
      (P := Unchanged defaultTimeout) (fun _ _ hl h => unchanged_step h hl)
      (Machine.guarded_of_forall _ fun l hl => hsighup l ?_) (unchanged_launch _ _)).setting
    rw [heq]
    exact List.mem_append_left _ hl
  -- no clock reading is later than the sixth second, and the limit is ten
  have hreadings : ∀ l ∈ canceledRun, ∀ t ∈ l.readings, 0 ≤ t ∧ t ≤ 6000000 := by decide +kernel
  have hsent := hreadings (.manage k now gap io) (by rw [heq]; simp) now (by simp [Label.readings])
  have hread := hreadings l hl time htime
  rw [hsetting] at hlimit
  change now + 10000 * 1000 ≤ time at hlimit
  omega

end NedoCron
