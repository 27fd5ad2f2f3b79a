import NedoCron.TaskSteps
import NedoCron.Lib.Ledger

namespace NedoCron

/-!
# nedo_cron — connections and runs as resources

A task acquires a connection and a run in START and gives both up later, on one of many
paths.  Each recorded call is read as an event on a connection handle and on a run id, and
one step of a task is shown to keep the discipline of `Lib/Ledger.lean` for both:

* `TaskOk` — how the state, the connection and the run of a task belong together;
* `Outcome.taskOk` — every outcome of a step keeps it;
* `Outcome.track_conn`, `Outcome.track_run` — the events of a step are those of an owner who
  uses only what it holds.
-/

/-! ### Events -/

/-- What a call does to a connection. -/
def Call.connEvents : Call → List (Ledger.Event Nat)
  | .connectStartParams _ (some conn) => [.acquire conn]
  | .sendQuery (some conn) _ _ => [.use conn]
  | .getResult (some conn) _ _ => [.use conn]
  | .use _ (some conn) => [.use conn]
  | .finish (some conn) => [.release conn]
  | _ => []

/-- What a call does to a run. -/
def Call.runEvents : Call → List (Ledger.Event Int)
  | .insertRun runId _ _ _ _ => [.acquire runId]
  | .updatePID runId _ => [.use runId]
  | .finishRun runId _ _ _ => [.release runId]
  | _ => []

/-- A run is open in these states. -/
def CronTaskState.inFlight (state : CronTaskState) : Bool := state.isConnected || state = .error

/-- The open run of a task. -/
def CronTask.openRun (task : CronTask) : Option Int :=
  if task.state.inFlight = true ∧ task.runId ≠ 0 then some task.runId else none

/-- The connection of the task that stays. -/
def Fate.conn : Fate → Option Nat
  | .kept task => task.conn
  | .removed => none

/-- The open run of the task that stays. -/
def Fate.openRun : Fate → Option Int
  | .kept task => task.openRun
  | .removed => none

/-! ### Tasks -/

/-- How the fields of a task belong together. -/
structure TaskOk (jobId : Int) (task : CronTask) : Prop where
  keyed : task.jobId = jobId
  /-- RECEIVING is never entered -/
  not_receiving : task.state ≠ .receiving
  /-- without a run there is no connection -/
  idle_conn : task.state = .waiting ∨ task.state = .start ∨ task.state = .done → task.conn = none
  /-- a run under way has its connection -/
  connected_conn : task.state.isConnected = true → task.conn.isSome = true
  /-- before START there is no run -/
  idle_run : task.state = .waiting ∨ task.state = .start → task.runId = 0
  /-- an open run has an id -/
  open_run : task.state.inFlight = true → 0 < task.runId
  /-- an error has a text -/
  error_text : task.state = .error → task.errorMessage.isSome = true

/-- A task in flight has its run open. -/
theorem openRun_of_inFlight {task : CronTask} (hstate : task.state.inFlight = true)
    (hrun : 0 < task.runId) : task.openRun = some task.runId := by
  have hne : task.runId ≠ 0 := by omega
  rw [CronTask.openRun, if_pos ⟨hstate, hne⟩]

/-- Any other task has none. -/
theorem openRun_of_not_inFlight {task : CronTask} (hstate : task.state.inFlight = false) :
    task.openRun = none := by
  rw [CronTask.openRun, if_neg]
  intro hboth
  rw [hstate] at hboth
  exact Bool.false_ne_true hboth.1

/-- A task created by `InitCronTask`. -/
theorem taskOk_initCronTask (entry : CronTask) (jobId : Int) :
    TaskOk jobId (initCronTask entry jobId) where
  keyed := rfl
  not_receiving := by simp [initCronTask]
  idle_conn _ := rfl
  connected_conn h := by simp [initCronTask, CronTaskState.isConnected] at h
  idle_run _ := rfl
  open_run h := by simp [initCronTask, CronTaskState.inFlight, CronTaskState.isConnected] at h
  error_text h := by simp [initCronTask] at h

/-- The fields `TaskOk` and the ledgers look at. -/
structure SameRun (task task' : CronTask) : Prop where
  jobId : task'.jobId = task.jobId
  state : task'.state = task.state
  conn : task'.conn = task.conn
  runId : task'.runId = task.runId
  errorMessage : task'.errorMessage = task.errorMessage

/-- The invariant of a task is about its run. -/
theorem TaskOk.congr {jobId : Int} {task task' : CronTask} (h : TaskOk jobId task)
    (hsame : SameRun task task') : TaskOk jobId task' where
  keyed := by rw [hsame.jobId]; exact h.keyed
  not_receiving := by rw [hsame.state]; exact h.not_receiving
  idle_conn := by rw [hsame.state, hsame.conn]; exact h.idle_conn
  connected_conn := by rw [hsame.state, hsame.conn]; exact h.connected_conn
  idle_run := by rw [hsame.state, hsame.runId]; exact h.idle_run
  open_run := by rw [hsame.state, hsame.runId]; exact h.open_run
  error_text := by rw [hsame.state, hsame.errorMessage]; exact h.error_text

/-- The same run is open. -/
theorem SameRun.openRun {task task' : CronTask} (hsame : SameRun task task') :
    task'.openRun = task.openRun := by
  unfold CronTask.openRun
  rw [hsame.state, hsame.runId]

variable {context : StepContext} {io : Replies} {task : CronTask} {turn : Turn}

/-- Setting an error in a task with an open run. -/
theorem TaskOk.fail {jobId : Int} {task : CronTask} (hkeyed : task.jobId = jobId)
    (hrun : 0 < task.runId) (leftover fmt : CString) (args : List FmtArg) :
    TaskOk jobId (task.fail leftover fmt args) where
  keyed := hkeyed
  not_receiving := by simp [CronTask.fail]
  idle_conn h := by simp [CronTask.fail] at h
  connected_conn h := by simp [CronTask.fail, CronTaskState.isConnected] at h
  idle_run h := by simp [CronTask.fail] at h
  open_run _ := hrun
  error_text _ := rfl

/-- A connected task is in flight. -/
theorem isConnected_inFlight {state : CronTaskState} (h : state.isConnected = true) :
    state.inFlight = true := by
  rw [CronTaskState.inFlight, h]; rfl

/-- **Every outcome of a step keeps `TaskOk`.** -/
theorem Outcome.taskOk (h : Outcome context io task turn) {jobId : Int} (hok : TaskOk jobId task)
    (hnew : 0 < context.newRunId) {task' : CronTask} (hfate : turn.fate = .kept task') :
    TaskOk jobId task' := by
  cases h with
  | removed hstate hactive => cases hfate
  | idle hstate => cases hfate; exact hok
  | due hstate hpending =>
    cases hfate
    have hconn := hok.idle_conn (Or.inl hstate)
    have hrun := hok.idle_run (Or.inl hstate)
    -- no run yet, and no connection
    exact ⟨hok.keyed, by simp, fun _ => hconn, by simp [CronTaskState.isConnected],
      fun _ => hrun, by simp [CronTaskState.inFlight, CronTaskState.isConnected], by simp⟩
  | refused job hjob hstate fmt args =>
    cases hfate
    -- START opens the run, and leads to ERROR or to CONNECTING
    apply TaskOk.fail
    · exact hok.keyed
    · exact hnew
  | unusable job hjob hstate functions hcancel fmt args =>
    cases hfate
    apply TaskOk.fail
    · exact hok.keyed
    · exact hnew
  | opened job hjob hstate =>
    cases hfate
    exact ⟨hok.keyed, by simp, by simp, fun _ => rfl, by simp, fun _ => hnew, by simp⟩
  | failed hstate functions hcancel fmt args =>
    cases hfate
    -- a step into ERROR keeps the run open
    exact TaskOk.fail hok.keyed (hok.open_run (isConnected_inFlight hstate)) _ _ _
  | waits hstate functions hcancel pollingStatus =>
    cases hfate
    exact hok.congr ⟨rfl, rfl, rfl, rfl, rfl⟩
  | connected hstate =>
    cases hfate
    have hconn := hok.connected_conn (by rw [hstate]; rfl)
    have hrun := hok.open_run (by rw [hstate]; rfl)
    exact ⟨hok.keyed, by simp, by simp, fun _ => hconn, by simp, fun _ => hrun, by simp⟩
  | sent job hjob hstate =>
    cases hfate
    have hconn := hok.connected_conn (by rw [hstate]; rfl)
    have hrun := hok.open_run (by rw [hstate]; rfl)
    exact ⟨hok.keyed, by simp, by simp, fun _ => hconn, by simp, fun _ => hrun, by simp⟩
  | unsent job hjob hstate fmt args =>
    cases hfate
    exact TaskOk.fail hok.keyed (hok.open_run (by rw [hstate]; rfl)) _ _ _
  | notCancelled hstate hoverdue functions hone fmt args cancelRequested runDeadline =>
    cases hfate
    have hfail := TaskOk.fail hok.keyed (hok.open_run (by rw [hstate]; rfl)) io.leftover fmt args
    exact hfail.congr ⟨rfl, rfl, rfl, rfl, rfl⟩
  | runs hstate base functions more hchecked hcancel =>
    cases hfate
    cases hchecked with
    | within => exact hok
    | cancelled hoverdue => exact hok.congr ⟨rfl, rfl, rfl, rfl, rfl⟩
  | unread hstate base functions more hchecked hcancel fmt args =>
    cases hfate
    have hrun := hok.open_run (by rw [hstate]; rfl)
    apply TaskOk.fail
    · exact hchecked.jobId_eq.trans hok.keyed
    · rw [hchecked.runId_eq]; exact hrun
  | succeeded hstate base functions more hchecked hcancel hread =>
    cases hfate
    have hkeyed : base.jobId = jobId := hchecked.jobId_eq.trans hok.keyed
    -- the run is over and its connection closed
    exact ⟨hkeyed, by simp, fun _ => rfl, by simp [CronTaskState.isConnected], by simp,
      by simp [CronTaskState.inFlight, CronTaskState.isConnected], by simp⟩
  | resultFailed hstate base functions more hchecked hcancel before after result busy hresults
      hbefore hfails fmt =>
    cases hfate
    have hrun := hok.open_run (by rw [hstate]; rfl)
    have hfail : TaskOk jobId ((base.atResult result).fail io.leftover fmt []) := by
      apply TaskOk.fail
      · rw [base.atResult_jobId, hchecked.jobId_eq]
        exact hok.keyed
      · rw [base.atResult_runId, hchecked.runId_eq]
        exact hrun
    exact ⟨hfail.keyed, hfail.not_receiving, fun _ => rfl,
      by simp [CronTask.disconnected, CronTask.fail, CronTaskState.isConnected],
      hfail.idle_run, hfail.open_run, hfail.error_text⟩
  | closed base hdone hbase =>
    have hkeyed : base.jobId = jobId := by
      rcases hbase with ⟨rfl, _⟩ | ⟨_, rfl⟩ <;> exact hok.keyed
    obtain ⟨-, rfl⟩ := manageError_kept hfate
    exact ⟨hkeyed, by simp, fun _ => rfl, by simp [CronTaskState.isConnected], by simp,
      by simp [CronTaskState.inFlight, CronTaskState.isConnected], by simp⟩
  | reset hstate =>
    -- DONE clears the entry for the next run
    have hkeyed : task.jobId = jobId := hok.keyed
    unfold manageDone at hfate
    split at hfate <;> cases hfate <;>
      exact ⟨hkeyed, by simp [resetCronTaskAfterRun], fun _ => rfl,
        by simp [resetCronTaskAfterRun, CronTaskState.isConnected], fun _ => rfl,
        by simp [resetCronTaskAfterRun, CronTaskState.inFlight, CronTaskState.isConnected],
        by simp [resetCronTaskAfterRun]⟩

/-! ### Owners -/

/-- Every use of a connection is an event of it. -/
@[simp] theorem connEvents_uses (functions : List PqFunction) (conn : Nat) :
    (uses functions (some conn)).flatMap Call.connEvents =
      List.replicate functions.length (.use conn) := by
  induction functions with
  | nil => rfl
  | cons f functions ih => rw [List.length_cons, List.replicate_succ, ← ih]; rfl

@[simp] theorem connEvents_fetches (conn : Nat) (results : List (QueryResult × Bool)) :
    (fetches (some conn) results).flatMap Call.connEvents =
      List.replicate results.length (.use conn) := by
  induction results with
  | nil => rfl
  | cons r results ih => rw [List.length_cons, List.replicate_succ, ← ih]; rfl

/-- Uses of a connection are no event of a run. -/
@[simp] theorem runEvents_uses (functions : List PqFunction) (conn : Option Nat) :
    (uses functions conn).flatMap Call.runEvents = [] := by
  simp [uses, Call.runEvents]

@[simp] theorem runEvents_fetches (conn : Option Nat) (results : List (QueryResult × Bool)) :
    (fetches conn results).flatMap Call.runEvents = [] := by
  induction results with
  | nil => rfl
  | cons r results ih => exact ih

/-- The error branch finishes the run if there is one. -/
theorem runEvents_manageError (base : CronTask) (io : Replies) :
    (manageError base io).calls.flatMap Call.runEvents =
      if base.runId = 0 then [] else [.release base.runId] := by
  have hclosed : (if base.conn.isSome then [Call.finish base.conn] else []).flatMap
      Call.runEvents = [] := by
    split <;> rfl
  show (_ ++ _ : List Call).flatMap Call.runEvents = _
  rw [List.flatMap_append, hclosed]
  by_cases hrun : base.runId = 0
  · simp [hrun]
  · simp [hrun, Call.runEvents]

/-- The error branch closes the connection if there is one. -/
theorem connEvents_manageError (base : CronTask) (io : Replies) :
    (manageError base io).calls.flatMap Call.connEvents =
      match base.conn with
      | none => []
      | some conn => [.release conn] := by
  show (_ ++ _ : List Call).flatMap Call.connEvents = _
  rw [List.flatMap_append]
  cases base.conn with
  | none => split <;> simp [Call.connEvents]
  | some conn => split <;> simp [Call.connEvents]

/-- **The connection of a task** is used, opened and closed as its owner may. -/
theorem Outcome.owns_conn (h : Outcome context io task turn) {jobId : Int}
    (hok : TaskOk jobId task) :
    Ledger.Owns task.conn (turn.calls.flatMap Call.connEvents) turn.fate.conn
      context.newConn := by
  have hbusy : task.state.isConnected = true → ∃ c, task.conn = some c :=
    fun hstate => Option.isSome_iff_exists.mp (hok.connected_conn hstate)
  cases h with
  | removed hstate hactive =>
    have hconn := hok.idle_conn (Or.inl hstate)
    exact ⟨by simp [hconn, Fate.conn], by simp⟩
  | idle hstate => exact Ledger.Owns.none _ _
  | due hstate hpending => exact Ledger.Owns.none _ _
  | refused job hjob hstate fmt args => exact Ledger.Owns.none _ _
  | unusable job hjob hstate functions hcancel fmt args =>
    have hconn := hok.idle_conn (Or.inr (Or.inl hstate))
    exact ⟨by simp [hconn, Turn.keep, Fate.conn, Call.connEvents, CronTask.fail, setTaskError],
      by simp [Turn.keep, Call.connEvents]⟩
  | opened job hjob hstate =>
    have hconn := hok.idle_conn (Or.inr (Or.inl hstate))
    exact ⟨by simp [hconn, Turn.keep, Fate.conn, Call.connEvents],
      by simp [Turn.keep, Call.connEvents]⟩
  | failed hstate functions hcancel fmt args =>
    obtain ⟨c, hc⟩ := hbusy hstate
    exact ⟨by simp [hc, Turn.keep, Fate.conn, CronTask.fail, setTaskError],
      by simp [hc, Turn.keep]⟩
  | waits hstate functions hcancel pollingStatus =>
    obtain ⟨c, hc⟩ := hbusy (by rcases hstate with h | h <;> rw [h] <;> rfl)
    exact ⟨by simp [hc, Turn.keep, Fate.conn], by simp [hc, Turn.keep]⟩
  | connected hstate =>
    obtain ⟨c, hc⟩ := hbusy (by rw [hstate]; rfl)
    exact ⟨by simp [hc, Turn.keep, Fate.conn, Call.connEvents],
      by simp [hc, Turn.keep, Call.connEvents]⟩
  | sent job hjob hstate =>
    obtain ⟨c, hc⟩ := hbusy (by rw [hstate]; rfl)
    exact ⟨by simp [hc, Turn.keep, Fate.conn, Call.connEvents],
      by simp [hc, Turn.keep, Call.connEvents]⟩
  | unsent job hjob hstate fmt args =>
    obtain ⟨c, hc⟩ := hbusy (by rw [hstate]; rfl)
    exact ⟨by simp [hc, Turn.keep, Fate.conn, Call.connEvents, CronTask.fail, setTaskError],
      by simp [hc, Turn.keep, Call.connEvents]⟩
  | notCancelled hstate hoverdue functions hone fmt args cancelRequested runDeadline =>
    obtain ⟨c, hc⟩ := hbusy (by rw [hstate]; rfl)
    exact ⟨by simp [hc, Turn.keep, Fate.conn, CronTask.fail, setTaskError],
      by simp [hc, Turn.keep]⟩
  | runs hstate base functions more hchecked hcancel =>
    obtain ⟨c, hc⟩ := hbusy (by rw [hstate]; rfl)
    exact ⟨by simp [hc, Turn.keep, Fate.conn, hchecked.conn_eq], by simp [hc, Turn.keep]⟩
  | unread hstate base functions more hchecked hcancel fmt args =>
    obtain ⟨c, hc⟩ := hbusy (by rw [hstate]; rfl)
    exact ⟨by simp [hc, Turn.keep, Fate.conn, CronTask.fail, setTaskError, hchecked.conn_eq],
      by simp [hc, Turn.keep]⟩
  -- read to the end: the connection is closed in the RUNNING step itself
  | succeeded hstate base functions more hchecked hcancel hread =>
    obtain ⟨c, hc⟩ := hbusy (by rw [hstate]; rfl)
    exact ⟨by simp [hc, Turn.keep, Fate.conn, Call.connEvents, CronTask.disconnected],
      by simp [hc, Turn.keep, Call.connEvents]⟩
  | resultFailed hstate base functions more hchecked hcancel before after result busy hresults
      hbefore hfails fmt =>
    obtain ⟨c, hc⟩ := hbusy (by rw [hstate]; rfl)
    exact ⟨by simp [hc, Turn.keep, Fate.conn, Call.connEvents, CronTask.disconnected],
      by simp [hc, Turn.keep, Call.connEvents]⟩
  | closed base hdone hbase =>
    -- the connection is closed if there is one, whatever becomes of the task
    have hconn : base.conn = task.conn := by
      rcases hbase with ⟨rfl, _⟩ | ⟨_, rfl⟩ <;> rfl
    have hnew : (manageError base io).fate.conn = none := by
      unfold manageError
      dsimp only
      split <;> rfl
    rw [hnew, connEvents_manageError, hconn]
    cases task.conn with
    | none => exact Ledger.Owns.none _ _
    | some c => exact ⟨by simp, Or.inl rfl⟩
  | reset hstate =>
    have hdone : task.state = .done := hstate.resolve_right hok.not_receiving
    have hconn := hok.idle_conn (Or.inr (Or.inr hdone))
    rw [hconn]
    exact ⟨by unfold manageDone; split <;> rfl, Or.inl rfl⟩

/-- The open run stays open. -/
theorem owns_run_stays {task' : CronTask} {calls : List Call} {run fresh : Int} (n : Nat)
    (hcalls : calls.flatMap Call.runEvents = List.replicate n (.use run))
    (hstate : task'.state.inFlight = true) (hrun : task'.runId = run) (hpos : 0 < run) :
    Ledger.Owns (some run) ((Turn.keep task' calls).calls.flatMap Call.runEvents)
      (Turn.keep task' calls).fate.openRun fresh := by
  have hopen : (Turn.keep task' calls).fate.openRun = some run := by
    subst hrun
    exact openRun_of_inFlight hstate hpos
  rw [hopen, show (Turn.keep task' calls).calls = calls from rfl, hcalls]
  exact ⟨by simp, by simp⟩

/-- A run is opened. -/
theorem owns_run_opens {task' : CronTask} {calls : List Call} {run : Int}
    (hcalls : calls.flatMap Call.runEvents = [.acquire run])
    (hstate : task'.state.inFlight = true) (hrun : task'.runId = run) (hpos : 0 < run) :
    Ledger.Owns none ((Turn.keep task' calls).calls.flatMap Call.runEvents)
      (Turn.keep task' calls).fate.openRun run := by
  have hopen : (Turn.keep task' calls).fate.openRun = some run := by
    subst hrun
    exact openRun_of_inFlight hstate hpos
  rw [hopen, show (Turn.keep task' calls).calls = calls from rfl, hcalls]
  exact ⟨by simp, by simp⟩

/-- **The run of a task** is opened, noted and finished as its owner may. -/
theorem Outcome.owns_run (h : Outcome context io task turn) {jobId : Int}
    (hok : TaskOk jobId task) (hnew : 0 < context.newRunId) :
    Ledger.Owns task.openRun (turn.calls.flatMap Call.runEvents) turn.fate.openRun
      context.newRunId := by
  have hidle : task.state.inFlight = false → task.openRun = none := openRun_of_not_inFlight
  have hbusy : task.state.inFlight = true → task.openRun = some task.runId ∧ 0 < task.runId :=
    fun hstate => ⟨openRun_of_inFlight hstate (hok.open_run hstate), hok.open_run hstate⟩
  cases h with
  | removed hstate hactive =>
    rw [hidle (by rw [hstate]; rfl)]
    exact Ledger.Owns.none _ _
  | idle hstate => exact Ledger.Owns.none _ _
  | due hstate hpending =>
    rw [hidle (by rw [hstate]; rfl)]
    exact Ledger.Owns.none _ _
  | refused job hjob hstate fmt args =>
    rw [hidle (by rw [hstate]; rfl)]
    exact owns_run_opens rfl rfl rfl hnew
  | unusable job hjob hstate functions hcancel fmt args =>
    rw [hidle (by rw [hstate]; rfl)]
    exact owns_run_opens (by simp [Call.runEvents]) rfl rfl hnew
  | opened job hjob hstate =>
    rw [hidle (by rw [hstate]; rfl)]
    exact owns_run_opens (by simp [Call.runEvents]) rfl rfl hnew
  | failed hstate functions hcancel fmt args =>
    obtain ⟨hrun, hpos⟩ := hbusy (isConnected_inFlight hstate)
    rw [hrun]
    exact owns_run_stays 0 (by simp) rfl rfl hpos
  | waits hstate functions hcancel pollingStatus =>
    have hflight : task.state.inFlight = true := by rcases hstate with h | h <;> rw [h] <;> rfl
    obtain ⟨hrun, hpos⟩ := hbusy hflight
    rw [hrun]
    exact owns_run_stays 0 (by simp) hflight rfl hpos
  | connected hstate =>
    obtain ⟨hrun, hpos⟩ := hbusy (by rw [hstate]; rfl)
    rw [hrun]
    exact owns_run_stays 1 (by simp [Call.runEvents]) rfl rfl hpos
  | sent job hjob hstate =>
    obtain ⟨hrun, hpos⟩ := hbusy (by rw [hstate]; rfl)
    rw [hrun]
    exact owns_run_stays 0 (by simp [Call.runEvents]) rfl rfl hpos
  | unsent job hjob hstate fmt args =>
    obtain ⟨hrun, hpos⟩ := hbusy (by rw [hstate]; rfl)
    rw [hrun]
    exact owns_run_stays 0 (by simp [Call.runEvents]) rfl rfl hpos
  | notCancelled hstate hoverdue functions hone fmt args cancelRequested runDeadline =>
    obtain ⟨hrun, hpos⟩ := hbusy (by rw [hstate]; rfl)
    rw [hrun]
    exact owns_run_stays 0 (by simp) rfl rfl hpos
  | runs hstate base functions more hchecked hcancel =>
    have hflight : task.state.inFlight = true := by rw [hstate]; rfl
    obtain ⟨hrun, hpos⟩ := hbusy hflight
    rw [hrun]
    exact owns_run_stays 0 (by simp) (by rw [hchecked.state_eq]; exact hflight)
      hchecked.runId_eq hpos
  | unread hstate base functions more hchecked hcancel fmt args =>
    obtain ⟨hrun, hpos⟩ := hbusy (by rw [hstate]; rfl)
    rw [hrun]
    exact owns_run_stays 0 (by simp) rfl hchecked.runId_eq hpos
  | succeeded hstate base functions more hchecked hcancel hread =>
    rw [(hbusy (by rw [hstate]; rfl)).1]
    refine ⟨?_, by simp [Turn.keep, Call.runEvents]⟩
    rw [show (Turn.keep { base.disconnected with state := .done } _).fate.openRun = none from
      openRun_of_not_inFlight rfl]
    simp [Turn.keep, Call.runEvents]
  -- the connection is closed here, but the run stays open for the ERROR step
  | resultFailed hstate base functions more hchecked hcancel before after result busy hresults
      hbefore hfails fmt =>
    obtain ⟨hrun, hpos⟩ := hbusy (by rw [hstate]; rfl)
    have hbase : (base.atResult result).runId = task.runId :=
      (base.atResult_runId result).trans hchecked.runId_eq
    rw [hrun]
    exact owns_run_stays 0 (by simp [Call.runEvents]) rfl hbase hpos
  | closed base hdone hbase =>
    have hrunId : base.runId = task.runId := by
      rcases hbase with ⟨rfl, _⟩ | ⟨_, rfl⟩ <;> rfl
    have hnone : (manageError base io).fate.openRun = none := by
      unfold manageError
      dsimp only
      split
      · rfl
      · exact openRun_of_not_inFlight rfl
    rw [hnone, runEvents_manageError, hrunId]
    by_cases hflight : task.state.inFlight = true
    · obtain ⟨hrun, hpos⟩ := hbusy hflight
      have hne : task.runId ≠ 0 := by omega
      rw [hrun, if_neg hne]
      exact ⟨by simp, Or.inl rfl⟩
    · -- the job of a task that waits or is about to start is gone
      have hidleRun : task.runId = 0 := by
        refine hok.idle_run ?_
        have hrecv := hok.not_receiving
        cases hs : task.state <;>
          simp_all [CronTaskState.inFlight, CronTaskState.isConnected]
      rw [hidle (by simpa using hflight), if_pos hidleRun]
      exact Ledger.Owns.none _ _
  | reset hstate =>
    have hdone : task.state = .done := hstate.resolve_right hok.not_receiving
    have hnone : (manageDone task).fate.openRun = none := by
      unfold manageDone
      split <;> exact openRun_of_not_inFlight rfl
    rw [hidle (by rw [hdone]; rfl), hnone]
    exact ⟨rfl, Or.inl rfl⟩

end NedoCron
