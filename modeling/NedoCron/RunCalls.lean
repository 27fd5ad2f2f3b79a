import NedoCron.RunLog

namespace NedoCron

/-!
# nedo_cron — the calls of a run

Which statements a run leaves in `job_run_details`, in which order, and what its libpq calls
say about how it ended.

* `Underway`, `Over` — what the calls of a run say while it is under way and when it is over;
* `underway_rule` — every step of the worker keeps this.
-/

/-! ### The calls of a run -/

/-- The functions of `cron_sql.c`. -/
def Call.isStatement : Call → Bool
  | .insertRun _ _ _ _ _ => true
  | .updatePID _ _ => true
  | .finishRun _ _ _ _ => true
  | _ => false

/-- The query is sent, with which the task goes to RUNNING. -/
def Call.startsRunning : Call → Bool
  | .sendQuery _ _ sent => sent
  | _ => false

/-- A result is asked for. -/
def Call.isFetch : Call → Bool
  | .getResult _ _ _ => true
  | _ => false

/-- `PQgetResult` returns `NULL`. -/
def Call.endsResults : Call → Bool
  | .getResult _ result _ => result.isNone
  | _ => false

/-- A result of a status that fails the run. -/
def Call.isFailure : Call → Bool
  | .getResult _ result _ => result.any fun r => r.status.fails
  | _ => false

/-- The calls recorded for a run, in order. -/
def World.calls (w : World) (r : Int) : List Call := (w.log r).map Entry.call

/-- The statements among the calls of a run. -/
def statements (calls : List Call) : List Call := calls.filter Call.isStatement

/-- The statements about a run under way: its row is inserted, and then perhaps the PID of
    its backend is noted. -/
def Begun (r jobId : Int) (sql : List Call) : Prop :=
  ∃ database userName startTime,
    sql = [.insertRun r jobId database userName startTime] ∨
      ∃ pid, sql = [.insertRun r jobId database userName startTime, .updatePID r pid]

/-- The run reached RUNNING and its results were read up to `NULL` without one that fails. -/
def Succeeds (calls : List Call) : Prop :=
  calls.any Call.startsRunning = true ∧ calls.any Call.endsResults = true ∧
    calls.any Call.isFailure = false

/-- A status a run ends with. -/
def RunStatus.isFinal (status : RunStatus) : Bool :=
  status = .succeeded || status = .failed || status = .timeout

/-- The calls of a run that is over: one finishing update follows, and says `succeeded` just
    when the run succeeded. -/
def Over (r : Int) (calls : List Call) : Prop :=
  ∃ jobId begun status message endTime, Begun r jobId begun ∧
    statements calls = begun ++ [.finishRun r status message endTime] ∧
    status.isFinal = true ∧ (status = .succeeded ↔ Succeeds calls)

/-- The calls of the run a task is in. -/
structure Underway (task : CronTask) (calls : List Call) : Prop where
  begun : Begun task.runId task.jobId (statements calls)
  /-- the PID is not noted before the connection stands -/
  unnoted : task.state = .connecting → (statements calls).length = 1
  running : task.state = .running → calls.any Call.startsRunning = true
  notRunning : task.state = .connecting ∨ task.state = .sending →
    calls.any Call.startsRunning = false
  unfetched : task.state.isConnected = true → calls.any Call.isFetch = false
  /-- a run that has read its results to the end is over -/
  unread : calls.any Call.endsResults = false

@[simp] theorem statements_append (calls more : List Call) :
    statements (calls ++ more) = statements calls ++ statements more := List.filter_append _ _

@[simp] theorem statements_cons (call : Call) (calls : List Call) :
    statements (call :: calls) =
      if call.isStatement then call :: statements calls else statements calls :=
  List.filter_cons

@[simp] theorem statements_nil : statements [] = [] := rfl

/-- What a use looks like. -/
theorem mem_uses {functions : List PqFunction} {conn : Option Nat} {call : Call}
    (h : call ∈ uses functions conn) : ∃ function conn, call = .use function conn := by
  obtain ⟨f, -, rfl⟩ := List.mem_map.mp h
  exact ⟨f, conn, rfl⟩

/-- What is false of every use of a connection is false of all calls that only use one. -/
theorem any_uses {p : Call → Bool} (hp : ∀ function conn, p (.use function conn) = false)
    {calls : List Call} (h : ∀ call ∈ calls, ∃ function conn, call = .use function conn) :
    calls.any p = false := by
  rw [List.any_eq_false]
  intro call hcall
  obtain ⟨function, conn, rfl⟩ := h call hcall
  simp [hp]

/-- What is false of every result read is true of no call among the fetches. -/
theorem any_fetches {p : Call → Bool} {conn : Option Nat}
    {results : List (QueryResult × Bool)}
    (hp : ∀ r ∈ results, p (.getResult conn (some r.1) r.2) = false) :
    (fetches conn results).any p = false := by
  simpa [fetches] using hp

/-- Calls without a statement. -/
theorem statements_eq_nil {calls : List Call} (h : calls.any Call.isStatement = false) :
    statements calls = [] := by
  rw [statements, List.filter_eq_nil_iff]
  exact fun call hcall => by simpa using List.any_eq_false.mp h call hcall

@[simp] theorem statements_uses (functions : List PqFunction) (conn : Option Nat) :
    statements (uses functions conn) = [] :=
  statements_eq_nil (any_uses (fun _ _ => rfl) fun _ => mem_uses)

@[simp] theorem statements_fetches (conn : Option Nat) (results : List (QueryResult × Bool)) :
    statements (fetches conn results) = [] :=
  statements_eq_nil (any_fetches fun _ _ => rfl)

/-- Without a result asked for there is none that fails. -/
theorem isFailure_of_unfetched {calls : List Call} (h : calls.any Call.isFetch = false) :
    calls.any Call.isFailure = false := by
  rw [List.any_eq_false] at h ⊢
  intro call hcall
  have hfetch := h call hcall
  cases call <;> simp_all [Call.isFetch, Call.isFailure]

/-- The calls of a turn, as entries of the log. -/
@[simp] theorem entries_calls (turn : Turn) (jobId currentTime : Int) :
    (turn.entries jobId currentTime).map Entry.call = turn.calls := by
  simp [Turn.entries, Function.comp_def]

/-! ### One step of a run -/

/-- A step into ERROR. -/
theorem Underway.fails {task task' : CronTask} {calls more : List Call}
    (h : Underway task calls) (hjob : task'.jobId = task.jobId)
    (hrun : task'.runId = task.runId) (hstate : task'.state = .error)
    (hsql : statements more = []) (hends : more.any Call.endsResults = false) :
    Underway task' (calls ++ more) where
  begun := by rw [statements_append, hsql, List.append_nil, hjob, hrun]; exact h.begun
  unnoted hs := by rw [hstate] at hs; exact absurd hs (by decide)
  running hs := by rw [hstate] at hs; exact absurd hs (by decide)
  notRunning hs := by rw [hstate] at hs; exact absurd hs (by decide)
  unfetched hs := by rw [hstate] at hs; exact absurd hs (by decide)
  unread := by rw [List.any_append, h.unread, hends]; rfl

/-- A step that stays in its state. -/
theorem Underway.stays {task task' : CronTask} {calls more : List Call}
    (h : Underway task calls) (hjob : task'.jobId = task.jobId)
    (hrun : task'.runId = task.runId) (hstate : task'.state = task.state)
    (hmore : ∀ call ∈ more, ∃ function conn, call = .use function conn) :
    Underway task' (calls ++ more) := by
  -- the new calls answer none of the questions about the run
  have hany : ∀ p : Call → Bool, (∀ function conn, p (.use function conn) = false) →
      (calls ++ more).any p = calls.any p := by
    intro p hp
    rw [List.any_append, any_uses hp hmore, Bool.or_false]
  have hsql : statements more = [] := statements_eq_nil (any_uses (fun _ _ => rfl) hmore)
  constructor
  · rw [statements_append, hsql, List.append_nil, hjob, hrun]; exact h.begun
  · rw [hstate, statements_append, hsql, List.append_nil]; exact h.unnoted
  · rw [hstate, hany _ fun _ _ => rfl]; exact h.running
  · rw [hstate, hany _ fun _ _ => rfl]; exact h.notRunning
  · rw [hstate, hany _ fun _ _ => rfl]; exact h.unfetched
  · rw [hany _ fun _ _ => rfl]; exact h.unread

/-- The first calls of a run. -/
theorem underway_start {task' : CronTask} {jobId : Int} (database userName : CString)
    (startTime : Int) (params : ConnectParams) (conn conn' : Option Nat)
    (functions : List PqFunction) (hjob : task'.jobId = jobId)
    (hstate : task'.state = .error ∨ task'.state = .connecting) :
    Underway task' (.insertRun task'.runId jobId database userName startTime ::
      .connectStartParams params conn :: uses functions conn') where
  begun := ⟨database, userName, startTime, Or.inl (by simp [Call.isStatement, hjob])⟩
  unnoted _ := by simp [Call.isStatement]
  running hs := by rcases hstate with h | h <;> rw [h] at hs <;> exact absurd hs (by decide)
  notRunning _ := by simp [uses, Call.startsRunning]
  unfetched _ := by simp [uses, Call.isFetch]
  unread := by simp [uses, Call.endsResults]

/-- A task with an open run is under way or in ERROR. -/
theorem inFlight_of_openRun {task : CronTask} (h : task.openRun.isSome = true) :
    task.state.inFlight = true := by
  by_contra hnot
  rw [openRun_of_not_inFlight (by simpa using hnot)] at h
  exact Bool.false_ne_true h

/-- The run that ends in the error branch. -/
theorem over_manageError {base task : CronTask} {calls : List Call} (io : Replies)
    (h : Underway task calls) (hrun : base.runId = task.runId) (hpos : 0 < task.runId) :
    Over task.runId (calls ++ (manageError base io).calls) := by
  have hne : base.runId ≠ 0 := by omega
  have hcalls : (manageError base io).calls =
      .finishRun task.runId (if base.timedOut then .timeout else .failed) base.errorMessage
        io.timestamp :: (if base.conn.isSome then [Call.finish base.conn] else []) := by
    unfold manageError
    dsimp only
    rw [if_pos hne, hrun]
    rfl
  have hclosed : statements (if base.conn.isSome then [Call.finish base.conn] else []) = [] := by
    split <;> rfl
  have hends : (if base.conn.isSome then [Call.finish base.conn] else []).any
      Call.endsResults = false := by
    split <;> rfl
  refine ⟨task.jobId, statements calls, if base.timedOut then .timeout else .failed,
    base.errorMessage, io.timestamp, h.begun, ?_, ?_, ?_⟩
  · rw [hcalls, statements_append, statements_cons, hclosed]
    rfl
  · split <;> rfl
  · -- neither status is `succeeded`, and the results were not read to their end
    have hleft : (if base.timedOut then RunStatus.timeout else .failed) ≠ .succeeded := by
      split <;> decide
    refine iff_of_false hleft fun hsucceeds => ?_
    have hread := hsucceeds.2.1
    rw [hcalls, List.any_append, List.any_cons, h.unread, hends] at hread
    exact absurd hread (by simp [Call.endsResults])

/-- The run whose results are read to their end. -/
theorem over_succeeded {task : CronTask} {calls : List Call} (functions : List PqFunction)
    {results : List (QueryResult × Bool)} (lastBusy : Bool) (endTime : Int)
    (h : Underway task calls) (hstate : task.state = .running)
    (hread : ∀ r ∈ results, r.1.status.fails = false) :
    Over task.runId (calls ++ (uses functions task.conn ++ fetches task.conn results ++
      [.getResult task.conn none lastBusy, .finish task.conn,
        .finishRun task.runId .succeeded (some (ascii "OK")) endTime])) := by
  refine ⟨task.jobId, statements calls, .succeeded, some (ascii "OK"), endTime, h.begun, ?_,
    rfl, iff_of_true rfl ⟨?_, ?_, ?_⟩⟩
  · simp [Call.isStatement]
  · rw [List.any_append, h.running hstate, Bool.true_or]
  · simp [Call.endsResults]
  · have hbefore := isFailure_of_unfetched (h.unfetched (by rw [hstate]; rfl))
    rw [List.any_append, hbefore, List.any_append, List.any_append,
      any_uses (fun _ _ => rfl) fun _ => mem_uses, any_fetches hread]
    rfl

/-! ### The rule -/

/-- Every loaded job is found under its own id. -/
def World.JobsKeyed (w : World) : Prop :=
  ∀ k job, w.jobs.lookup k = some job → job.jobId = k

/-- Every step keeps this: a reload enters each job under its id. -/
theorem jobsKeyed_step (w : World) (l : Label) (h : w.JobsKeyed) : (w.step l).JobsKeyed := by
  cases l with
  | invalidate => exact h
  | sighup statementTimeout => exact h
  | reload source currentTime => exact fun k job hjob => loadJobsList_keyed hjob
  | startPending currentTime => exact h
  | wait io =>
    show (w.waitForEvent io).JobsKeyed
    unfold World.JobsKeyed
    rw [(wait_rest w io).1]
    exact h
  | manage jobId currentTime gap io =>
    show (w.manage jobId currentTime gap io).JobsKeyed
    cases hold : w.tasks.lookup jobId with
    | none => rw [manage_none hold]; exact h
    | some task => rw [manage_eq hold]; exact h
  | deleteRuns gone => exact h

/-- The first turn of a run finds its job under the id of the task. -/
theorem jobId_of_context {w : World} (hkeyed : w.JobsKeyed) {task : CronTask}
    {currentTime : Int} {gap : Nat} {job : CronJob}
    (hjob : (w.context task currentTime gap).job = some job) : job.jobId = task.jobId :=
  hkeyed task.jobId job hjob

/-- **A turn** that begins or continues a run. -/
theorem Underway.turn {context : StepContext} {io : Replies} {task task' : CronTask} {turn : Turn}
    (houtcome : Outcome context io task turn) {jobId : Int} (hok : TaskOk jobId task)
    (hkeyed : ∀ job, context.job = some job → job.jobId = task.jobId) {calls : List Call}
    (hfresh : task.openRun = none → calls = [])
    (hprior : task.openRun.isSome = true → Underway task calls)
    (hkept : turn.fate = .kept task') (hopen : task'.openRun.isSome = true) :
    Underway task' (calls ++ turn.calls) := by
  have hflight := inFlight_of_openRun hopen
  -- the calls of a new run begin with those of START
  have hnone : task.state = .start → calls = [] := fun hstate =>
    hfresh (openRun_of_not_inFlight (by rw [hstate]; rfl))
  have hbusy : task.state.inFlight = true → Underway task calls := by
    intro hstate
    apply hprior
    rw [openRun_of_inFlight hstate (hok.open_run hstate)]
    rfl
  cases houtcome with
  | removed hstate hactive => cases hkept
  | idle hstate => cases hkept; rw [hstate] at hflight; exact absurd hflight (by decide)
  | due hstate hpending => cases hkept; exact absurd hflight Bool.false_ne_true
  | refused job hjob hstate fmt args =>
    cases hkept
    rw [hnone hstate]
    exact underway_start _ _ _ _ none none [] (hkeyed job hjob).symm (Or.inl rfl)
  | unusable job hjob hstate functions hcancel fmt args =>
    cases hkept
    rw [hnone hstate]
    exact underway_start _ _ _ _ _ _ _ (hkeyed job hjob).symm (Or.inl rfl)
  | opened job hjob hstate =>
    cases hkept
    rw [hnone hstate]
    exact underway_start _ _ _ _ _ _ _ (hkeyed job hjob).symm (Or.inr rfl)
  | failed hstate functions hcancel fmt args =>
    cases hkept
    exact (hbusy (isConnected_inFlight hstate)).fails rfl rfl rfl (statements_uses _ _)
      (any_uses (fun _ _ => rfl) fun _ => mem_uses)
  | waits hstate functions hcancel pollingStatus =>
    cases hkept
    have h := hbusy (by rcases hstate with h | h <;> rw [h] <;> rfl)
    exact h.stays rfl rfl rfl fun _ => mem_uses
  | connected hstate =>
    cases hkept
    have h := hbusy (by rw [hstate]; rfl)
    -- in CONNECTING there is only the row, so the PID is noted once
    obtain ⟨database, userName, startTime, hsql | ⟨pid, hsql⟩⟩ := h.begun
    · constructor
      · refine ⟨database, userName, startTime, Or.inr ⟨io.backendPID, ?_⟩⟩
        simp [Turn.keep, hsql, Call.isStatement]
      · exact fun hs => absurd hs (by simp)
      · exact fun hs => absurd hs (by simp)
      · intro _
        have hbefore := h.notRunning (Or.inl hstate)
        simp [Turn.keep, hbefore, uses, Call.startsRunning]
      · intro _
        have hbefore := h.unfetched (by rw [hstate]; rfl)
        simp [Turn.keep, hbefore, uses, Call.isFetch]
      · simp [Turn.keep, h.unread, uses, Call.endsResults]
    · have hlength := h.unnoted hstate
      rw [hsql] at hlength
      exact absurd hlength (by simp)
  | sent job hjob hstate =>
    cases hkept
    have h := hbusy (by rw [hstate]; rfl)
    constructor
    · simpa [Turn.keep, Call.isStatement] using h.begun
    · exact fun hs => absurd hs (by simp)
    · intro _
      simp [Turn.keep, Call.startsRunning]
    · exact fun hs => absurd hs (by simp)
    · intro _
      have hbefore := h.unfetched (by rw [hstate]; rfl)
      simp [Turn.keep, hbefore, uses, Call.isFetch]
    · simp [Turn.keep, h.unread, uses, Call.endsResults]
  | unsent job hjob hstate fmt args =>
    cases hkept
    refine (hbusy (by rw [hstate]; rfl)).fails rfl rfl rfl ?_ ?_
    · simp [Turn.keep, Call.isStatement]
    · simp [Turn.keep, uses, Call.endsResults]
  | notCancelled hstate hoverdue functions hone fmt args cancelRequested runDeadline =>
    cases hkept
    exact (hbusy (by rw [hstate]; rfl)).fails rfl rfl rfl (statements_uses _ _)
      (any_uses (fun _ _ => rfl) fun _ => mem_uses)
  | runs hstate base functions more hchecked hcancel =>
    cases hkept
    exact (hbusy (by rw [hstate]; rfl)).stays hchecked.jobId_eq hchecked.runId_eq hchecked.state_eq
      fun _ => mem_uses
  | unread hstate base functions more hchecked hcancel fmt args =>
    cases hkept
    exact (hbusy (by rw [hstate]; rfl)).fails hchecked.jobId_eq hchecked.runId_eq rfl
      (statements_uses _ _) (any_uses (fun _ _ => rfl) fun _ => mem_uses)
  | succeeded hstate base functions more hchecked hcancel hread =>
    cases hkept
    exact absurd hflight Bool.false_ne_true
  | resultFailed hstate base functions more hchecked hcancel before after result busy hresults
      hbefore hfails fmt =>
    cases hkept
    refine (hbusy (by rw [hstate]; rfl)).fails
      ((base.atResult_jobId result).trans hchecked.jobId_eq)
      ((base.atResult_runId result).trans hchecked.runId_eq) rfl ?_ ?_
    · simp [Turn.keep, Call.isStatement]
    · simp [Turn.keep, uses, fetches, Call.endsResults]
  | closed base hdone hbase =>
    -- the error branch gives the run up
    obtain ⟨-, rfl⟩ := manageError_kept hkept
    exact absurd hflight Bool.false_ne_true
  | reset hstate =>
    unfold manageDone at hkept
    split at hkept <;> cases hkept <;> exact absurd hflight Bool.false_ne_true

/-- **A turn** that ends a run. -/
theorem Underway.ends {context : StepContext} {io : Replies} {task : CronTask} {turn : Turn}
    (houtcome : Outcome context io task turn) {jobId : Int} (hok : TaskOk jobId task)
    {calls : List Call} (hopen : task.openRun = some turn.run) (h : Underway task calls)
    (hgiven : turn.fate.openRun = none) : Over turn.run (calls ++ turn.calls) := by
  have hflight := inFlight_of_openRun (by rw [hopen]; rfl)
  have hpos := hok.open_run hflight
  -- a turn that keeps the run does not end it
  have hkeeps : ∀ (task' : CronTask) (calls : List Call), task'.runId = task.runId →
      task'.state.inFlight = true → (Turn.keep task' calls).fate.openRun ≠ none := by
    intro task' calls hrun hstate hnone
    rw [← hrun] at hpos
    exact absurd ((openRun_of_inFlight hstate hpos).symm.trans hnone) (by simp)
  cases houtcome with
  | removed hstate hactive => rw [hstate] at hflight; exact absurd hflight (by decide)
  | idle hstate => rw [hstate] at hflight; exact absurd hflight (by decide)
  | due hstate hpending => rw [hstate] at hflight; exact absurd hflight (by decide)
  | refused job hjob hstate fmt args => rw [hstate] at hflight; exact absurd hflight (by decide)
  | unusable job hjob hstate functions hcancel fmt args =>
    rw [hstate] at hflight; exact absurd hflight (by decide)
  | opened job hjob hstate => rw [hstate] at hflight; exact absurd hflight (by decide)
  | failed hstate functions hcancel fmt args => exact absurd hgiven (hkeeps _ _ rfl rfl)
  | waits hstate functions hcancel pollingStatus =>
    exact absurd hgiven (hkeeps _ _ rfl hflight)
  | connected hstate => exact absurd hgiven (hkeeps _ _ rfl rfl)
  | sent job hjob hstate => exact absurd hgiven (hkeeps _ _ rfl rfl)
  | unsent job hjob hstate fmt args => exact absurd hgiven (hkeeps _ _ rfl rfl)
  | notCancelled hstate hoverdue functions hone fmt args cancelRequested runDeadline =>
    exact absurd hgiven (hkeeps _ _ rfl rfl)
  | runs hstate base functions more hchecked hcancel =>
    exact absurd hgiven (hkeeps _ _ hchecked.runId_eq (by rw [hchecked.state_eq]; exact hflight))
  | unread hstate base functions more hchecked hcancel fmt args =>
    exact absurd hgiven (hkeeps _ _ hchecked.runId_eq rfl)
  | succeeded hstate base functions more hchecked hcancel hread =>
    have hover := over_succeeded (functions ++ more) io.lastBusy io.timestamp h hstate hread
    show Over base.disconnected.runId _
    rw [show base.disconnected.runId = task.runId from hchecked.runId_eq]
    exact hover
  | resultFailed hstate base functions more hchecked hcancel before after result busy hresults
      hbefore hfails fmt =>
    have hrun : (base.atResult result).runId = task.runId :=
      (base.atResult_runId result).trans hchecked.runId_eq
    exact absurd hgiven (hkeeps _ _ hrun rfl)
  | closed base hdone hbase =>
    have hrun : base.runId = task.runId := by
      rcases hbase with ⟨rfl, _⟩ | ⟨_, rfl⟩ <;> rfl
    show Over base.runId _
    rw [hrun]
    exact over_manageError io h hrun hpos
  | reset hstate =>
    have hdone : task.state = .done := hstate.resolve_right hok.not_receiving
    rw [hdone] at hflight
    exact absurd hflight (by decide)

/-- **Every step of the worker keeps what the calls of a run say.** -/
theorem underway_rule : LogRule (fun w _ => w.JobsKeyed)
    (fun _ task log => Underway task (log.map Entry.call))
    (fun r log => Over r (log.map Entry.call)) where
  idles := by
    intro jobs task task' log hidles h
    have hsame := hidles.sameRun
    -- such a change of the task is a step without a call
    have hnext : Underway task' (log.map Entry.call ++ []) :=
      h.stays hsame.jobId hsame.runId hsame.state (by simp)
    rwa [List.append_nil] at hnext
  reload := fun _ _ _ h => h
  socket := by
    intro jobs task log entries hsocket h
    rw [List.map_append]
    apply h.stays rfl rfl rfl
    intro call hcall
    obtain ⟨e, he, rfl⟩ := List.mem_map.mp hcall
    -- a wait only asks for the socket
    have hs := hsocket e he
    cases hc : e.call with
    | use function conn => exact ⟨function, conn, rfl⟩
    | _ => rw [hc] at hs; exact absurd hs (by simp [Call.isSocket])
  waitFails := by
    intro jobs task log leftover fmt args pollingStatus hstate h
    have hnext : Underway
        { task.fail leftover fmt args with pollingStatus := pollingStatus }
        (log.map Entry.call ++ []) := h.fails rfl rfl rfl rfl rfl
    rwa [List.append_nil] at hnext
  turn := by
    rintro w jobId task currentTime gap io log task' turn hok hkeyed hold houtcome - hfresh hprior
      hkept hopen
    rw [List.map_append, entries_calls]
    -- a turn that keeps the run open
    apply Underway.turn houtcome (hok.tasks jobId task hold) _ _ hprior hkept hopen
    · exact fun job hjob => jobId_of_context hkeyed hjob
    · intro hnone
      rw [hfresh hnone]
      rfl
  ends := by
    rintro w jobId task currentTime gap io log turn hok hkeyed hold houtcome - hopen h hgiven
    -- a turn that ends it
    rw [List.map_append, entries_calls]
    exact Underway.ends houtcome (hok.tasks jobId task hold) hopen h hgiven

/-! ### The first statement -/

/-- START inserts one row before it calls anything else, and no other branch inserts one. -/
theorem Outcome.insertion {context : StepContext} {io : Replies} {task : CronTask} {turn : Turn}
    (h : Outcome context io task turn) :
    (∃ job rest, task.state = .start ∧ context.job = some job ∧
        turn.calls = .insertRun context.newRunId job.jobId job.database job.userName
          io.timestamp :: rest ∧ statements rest = []) ∨
      (¬(task.state = .start ∧ context.job.isSome = true) ∧
        Ledger.acquired (turn.calls.flatMap Call.runEvents) = []) := by
  -- outside START nothing is inserted
  have hother : task.state ≠ .start → ¬(task.state = .start ∧ context.job.isSome = true) :=
    fun hne hboth => hne hboth.1
  cases h with
  | removed hstate hactive => exact Or.inr ⟨hother (by rw [hstate]; decide), rfl⟩
  | idle hstate => exact Or.inr ⟨hother (by rw [hstate]; decide), rfl⟩
  | due hstate hpending => exact Or.inr ⟨hother (by rw [hstate]; decide), rfl⟩
  | refused job hjob hstate fmt args => exact Or.inl ⟨job, _, hstate, hjob, rfl, rfl⟩
  | unusable job hjob hstate functions hcancel fmt args =>
    exact Or.inl ⟨job, _, hstate, hjob, rfl, by simp [Call.isStatement]⟩
  | opened job hjob hstate =>
    exact Or.inl ⟨job, _, hstate, hjob, rfl, by simp [Call.isStatement]⟩
  | failed hstate functions hcancel fmt args =>
    refine Or.inr ⟨hother fun hs => ?_, by simp [Turn.keep]⟩
    rw [hs] at hstate
    exact absurd hstate (by decide)
  | waits hstate functions hcancel pollingStatus =>
    refine Or.inr ⟨hother ?_, by simp [Turn.keep]⟩
    rcases hstate with hs | hs <;> rw [hs] <;> decide
  | connected hstate =>
    exact Or.inr ⟨hother (by rw [hstate]; decide), by simp [Turn.keep, Call.runEvents]⟩
  | sent job hjob hstate =>
    exact Or.inr ⟨hother (by rw [hstate]; decide), by simp [Turn.keep, Call.runEvents]⟩
  | unsent job hjob hstate fmt args =>
    exact Or.inr ⟨hother (by rw [hstate]; decide), by simp [Turn.keep, Call.runEvents]⟩
  | notCancelled hstate hoverdue functions hone fmt args cancelRequested runDeadline =>
    exact Or.inr ⟨hother (by rw [hstate]; decide), by simp [Turn.keep]⟩
  | runs hstate base functions more hchecked hcancel =>
    exact Or.inr ⟨hother (by rw [hstate]; decide), by simp [Turn.keep]⟩
  | unread hstate base functions more hchecked hcancel fmt args =>
    exact Or.inr ⟨hother (by rw [hstate]; decide), by simp [Turn.keep]⟩
  | succeeded hstate base functions more hchecked hcancel hread =>
    exact Or.inr ⟨hother (by rw [hstate]; decide), by simp [Turn.keep, Call.runEvents]⟩
  | resultFailed hstate base functions more hchecked hcancel before after result busy hresults
      hbefore hfails fmt =>
    exact Or.inr ⟨hother (by rw [hstate]; decide), by simp [Turn.keep, Call.runEvents]⟩
  | closed base hdone hbase =>
    refine Or.inr ⟨fun hboth => ?_, ?_⟩
    · -- ERROR is not START, and a task without its job has nothing to start
      rcases hbase with ⟨-, hs⟩ | ⟨hnone, -⟩
      · rw [hs] at hboth; exact absurd hboth.1 (by decide)
      · rw [hnone] at hboth; exact absurd hboth.2 (by decide)
    · rw [runEvents_manageError]
      split <;> rfl
  | reset hstate =>
    refine Or.inr ⟨hother ?_, rfl⟩
    rcases hstate with hs | hs <;> rw [hs] <;> decide

/-- Only statements are about runs. -/
theorem runEvents_of_no_statement {calls : List Call} (h : statements calls = []) :
    calls.flatMap Call.runEvents = [] := by
  rw [List.flatMap_eq_nil_iff]
  intro call hcall
  have hnot := List.filter_eq_nil_iff.mp h call hcall
  cases call with
  | insertRun runId jobId database userName startTime => exact absurd rfl hnot
  | updatePID runId pid => exact absurd rfl hnot
  | finishRun runId status message endTime => exact absurd rfl hnot
  | connectStartParams params conn => rfl
  | sendQuery conn command sent => rfl
  | getResult conn result busy => rfl
  | finish conn => rfl
  | use function conn => rfl

end NedoCron
