import NedoCron.RunCalls

namespace NedoCron

/-!
# nedo_cron — the run history

The rows of `job_run_details` against the calls of the runs and the tasks under way.

* `RowsOk` — a row that still exists is what the statements of its run make of it;
* `Faithful` — what it means that the history is faithful;
* `runHistory_faithful` — it is, in every state a worker reaches.
-/

/-! ### Rows -/

/-- What the statement of a call makes of the row of its run; `none` is no row. -/
def Call.applyRow (row : Option RunRow) : Call → Option RunRow
  | .insertRun _ jobId database userName startTime =>
    some
      { jobid := jobId
        jobPid := none
        database := database
        username := userName
        status := .starting
        returnMessage := none
        startTime := startTime
        endTime := none }
  | .updatePID _ pid =>
    if pid = 0 then row
    else row.map fun row => { row with status := .running, jobPid := some pid }
  | .finishRun _ status message endTime =>
    row.map fun row =>
      { row with status := status, returnMessage := message, endTime := some endTime }
  | _ => row

/-- The row of a run after some of its calls. -/
def rowAfter (row : Option RunRow) (calls : List Call) : Option RunRow :=
  calls.foldl Call.applyRow row

/-- The row after two stretches of calls. -/
theorem rowAfter_append (row : Option RunRow) (calls more : List Call) :
    rowAfter row (calls ++ more) = rowAfter (rowAfter row calls) more := List.foldl_append

/-- Only statements change a row. -/
theorem rowAfter_statements (row : Option RunRow) (calls : List Call) :
    rowAfter row (statements calls) = rowAfter row calls := by
  induction calls generalizing row with
  | nil => rfl
  | cons call calls ih =>
    cases call with
    | insertRun runId jobId database userName startTime => exact ih _
    | updatePID runId pid => exact ih _
    | finishRun runId status message endTime => exact ih _
    | connectStartParams params conn => exact ih _
    | sendQuery conn command sent => exact ih _
    | getResult conn result busy => exact ih _
    | finish conn => exact ih _
    | use function conn => exact ih _

/-- A row that has been deleted stays away, until it is inserted. -/
theorem rowAfter_deleted {row row' : Option RunRow} (h : row = none ∨ row = row')
    (calls : List Call) :
    rowAfter row calls = none ∨ rowAfter row calls = rowAfter row' calls := by
  rcases h with rfl | rfl
  · induction calls generalizing row' with
    | nil => exact Or.inl rfl
    | cons call calls ih =>
      cases call with
      | insertRun runId jobId database userName startTime => exact Or.inr rfl
      | updatePID runId pid =>
        show rowAfter (if pid = 0 then none else none) calls = none ∨
          rowAfter (if pid = 0 then none else none) calls = _
        rw [ite_self]
        exact ih
      | finishRun runId status message endTime => exact ih
      | connectStartParams params conn => exact ih
      | sendQuery conn command sent => exact ih
      | getResult conn result busy => exact ih
      | finish conn => exact ih
      | use function conn => exact ih
  · exact Or.inr rfl

/-- A statement about a run changes the row of that run as `applyRow` says. -/
theorem lookup_apply (h : History) (call : Call) {r : Int}
    (hrun : ∀ ev ∈ call.runEvents, ev.handle = r) :
    (h.apply call).runs.lookup r = call.applyRow (h.runs.lookup r) := by
  -- the only statements are the insertion and the two updates
  cases call with
  | insertRun runId jobId database userName startTime =>
    obtain rfl : runId = r := hrun (.acquire runId) (by simp [Call.runEvents])
    exact AList.lookup_insert _
  | updatePID runId pid =>
    obtain rfl : runId = r := hrun (.use runId) (by simp [Call.runEvents])
    show (if pid = 0 then h else h.updateRun runId _).runs.lookup runId = _
    unfold Call.applyRow
    dsimp only
    split
    · rfl
    · exact Table.lookup_adjust_self _ _ _
  | finishRun runId status message endTime =>
    obtain rfl : runId = r := hrun (.release runId) (by simp [Call.runEvents])
    exact Table.lookup_adjust_self _ _ _
  | connectStartParams params conn => rfl
  | sendQuery conn command sent => rfl
  | getResult conn result busy => rfl
  | finish conn => rfl
  | use function conn => rfl

/-- A statement about another run leaves the row alone. -/
theorem lookup_apply_ne (h : History) (call : Call) {r : Int}
    (hrun : ∀ ev ∈ call.runEvents, ev.handle ≠ r) :
    (h.apply call).runs.lookup r = h.runs.lookup r := by
  cases call with
  | insertRun runId jobId database userName startTime =>
    have hne : runId ≠ r := hrun (.acquire runId) (by simp [Call.runEvents])
    exact AList.lookup_insert_ne hne.symm
  | updatePID runId pid =>
    have hne : runId ≠ r := hrun (.use runId) (by simp [Call.runEvents])
    show (if pid = 0 then h else h.updateRun runId _).runs.lookup r = _
    split
    · rfl
    · exact Table.lookup_adjust_ne hne.symm _ _
  | finishRun runId status message endTime =>
    have hne : runId ≠ r := hrun (.release runId) (by simp [Call.runEvents])
    exact Table.lookup_adjust_ne hne.symm _ _
  | connectStartParams params conn => rfl
  | sendQuery conn command sent => rfl
  | getResult conn result busy => rfl
  | finish conn => rfl
  | use function conn => rfl

/-- The rows after the calls of one run. -/
theorem lookup_foldl_apply (calls : List Call) (h : History) {run : Int}
    (hrun : ∀ call ∈ calls, ∀ ev ∈ call.runEvents, ev.handle = run) (r : Int) :
    (calls.foldl History.apply h).runs.lookup r =
      if run = r then rowAfter (h.runs.lookup r) calls else h.runs.lookup r := by
  induction calls generalizing h with
  | nil => exact (ite_self _).symm
  | cons call calls ih =>
    have hcall := hrun call (by simp)
    rw [List.foldl_cons, ih (h.apply call) fun c hc => hrun c (by simp [hc])]
    by_cases hr : run = r
    · subst hr
      rw [if_pos rfl, if_pos rfl, lookup_apply h call hcall]
      rfl
    · rw [if_neg hr, if_neg hr]
      exact lookup_apply_ne h call fun ev hev heq => hr ((hcall ev hev).symm.trans heq)

/-! ### The rows of a worker -/

/-- The rows of a worker that was started on `history`. -/
structure RowsOk (history : History) (w : World) : Prop where
  /-- a row is what the calls of its run make of it, or it has been deleted -/
  rows : ∀ r, w.history.runs.lookup r = none ∨
    w.history.runs.lookup r = rowAfter (history.runs.lookup r) (w.calls r)
  /-- the worker's runs are new -/
  started : ∀ r, .acquire r ∈ w.runLog → history.lastRunId < r
  grows : history.lastRunId ≤ w.history.lastRunId

/-- A new worker has recorded nothing. -/
theorem rowsOk_launch (statementTimeout : StatementTimeout) (history : History) :
    RowsOk history (World.launch statementTimeout history) where
  rows r := Or.inr rfl
  started r h := absurd h (by simp [World.runLog, World.launch])
  grows := le_refl _

/-- A turn adds its calls to those of its run. -/
theorem calls_manage {w : World} {jobId : Int} {task : CronTask}
    (hold : w.tasks.lookup jobId = some task) (currentTime : Int) (gap : Nat) (io : Replies)
    (r : Int) : (w.manage jobId currentTime gap io).calls r =
      w.calls r ++ if (w.turn task currentTime gap io).run = r then
        (w.turn task currentTime gap io).calls else [] := by
  rw [World.calls, log_manage hold, List.map_append]
  congr 1
  split
  · exact entries_calls _ _ _
  · rfl

/-- **Every step** keeps the rows in line with the calls.  A statement of a turn is about its own
    run, so the rows of the other runs stay as they are. -/
theorem rowsOk_step {history : History} {w : World} (hok : WorldOk w)
    (h : RowsOk history w) (l : Label) : RowsOk history (w.step l) := by
  -- steps that leave the rows and the record of calls alone
  have hsame : ∀ w' : World, w'.history = w.history → w'.trace = w.trace →
      RowsOk history w' := by
    intro w' hhistory htrace
    constructor
    · intro r
      rw [hhistory, World.calls, World.log, htrace]
      exact h.rows r
    · intro r hr
      rw [World.runLog, htrace] at hr
      exact h.started r hr
    · rw [hhistory]; exact h.grows
  cases l with
  | invalidate => exact hsame _ rfl rfl
  | sighup statementTimeout => exact hsame _ rfl rfl
  | reload source currentTime => exact hsame _ rfl rfl
  | startPending currentTime => exact hsame _ rfl rfl
  | wait io =>
    obtain ⟨entries, htrace, hentries⟩ := trace_wait w io
    have hhistory := (wait_rest w io).2.2
    constructor
    · intro r
      show (w.waitForEvent io).history.runs.lookup r = none ∨
        (w.waitForEvent io).history.runs.lookup r =
          rowAfter _ ((w.waitForEvent io).calls r)
      -- a wait makes no statement
      have hsql : statements ((entries.filter fun e => e.run = r).map Entry.call) = [] := by
        unfold statements
        rw [List.filter_eq_nil_iff]
        intro call hcall
        obtain ⟨e, he, rfl⟩ := List.mem_map.mp hcall
        obtain ⟨task, conn, -, -, -, -, huse⟩ := hentries e (List.mem_of_mem_filter he)
        rw [huse]
        exact Bool.false_ne_true
      rw [hhistory, World.calls, log_append htrace, List.map_append, rowAfter_append,
        ← rowAfter_statements _ (List.map _ (List.filter _ entries)), hsql]
      exact h.rows r
    · intro r hr
      change .acquire r ∈ (w.waitForEvent io).runLog at hr
      rw [runLog_wait] at hr
      exact h.started r hr
    · show history.lastRunId ≤ (w.waitForEvent io).history.lastRunId
      rw [hhistory]
      exact h.grows
  | manage jobId currentTime gap io =>
    show RowsOk history (w.manage jobId currentTime gap io)
    cases hold : w.tasks.lookup jobId with
    | none => rw [manage_none hold]; exact h
    | some task =>
      have houtcome := turn_outcome w task currentTime gap io
      have hhistory : (w.manage jobId currentTime gap io).history =
          (w.turn task currentTime gap io).calls.foldl History.apply w.history := by
        rw [manage_eq hold]
      have hrow := lookup_foldl_apply _ w.history fun call hcall => houtcome.runEvents_run hcall
      have hlast := (lastRunId_foldl_apply (w.turn task currentTime gap io).calls w.history).1
      constructor
      · intro r
        rw [hhistory, hrow, calls_manage hold]
        -- the calls of a turn are about its own run; no other row changes
        by_cases hr : (w.turn task currentTime gap io).run = r
        · rw [if_pos hr, if_pos hr, rowAfter_append]
          exact rowAfter_deleted (h.rows r) _
        · rw [if_neg hr, if_neg hr, List.append_nil]
          exact h.rows r
      · intro r hr
        rw [runLog_manage hold] at hr
        rcases List.mem_append.mp hr with hr | hr
        · exact h.started r hr
        -- a turn inserts under the next id only, which is above all earlier ones
        · have hnew := (turn_owns_run hok hold currentTime gap io).mem_acquired
            (Ledger.mem_acquired.mpr hr)
          have hgrows := h.grows
          rw [hnew]
          unfold History.nextRunId
          omega
      · rw [hhistory]
        exact le_trans h.grows hlast
  | deleteRuns gone =>
    constructor
    · intro r
      show (Table.keep _ w.history.runs).lookup r = none ∨
        (Table.keep _ w.history.runs).lookup r = rowAfter _ (w.calls r)
      rw [Table.lookup_keep]
      -- a row is kept as it is or gone for good
      have hfilter : ∀ row : Option RunRow,
          row.filter (fun _ => !gone r) = none ∨ row.filter (fun _ => !gone r) = row := by
        intro row
        cases row with
        | none => exact Or.inl rfl
        | some row => cases gone r <;> simp
      rcases hfilter (w.history.runs.lookup r) with hnone | hkept
      · exact Or.inl hnone
      · rw [hkept]; exact h.rows r
    · exact h.started
    · exact h.grows

/-! ### Statuses -/

/-- The moves of a status: from `starting` anywhere, from `running` to the end. -/
def RunStatus.moves : RunStatus → RunStatus → Bool
  | .starting, _ => true
  | .running, status => status ≠ .starting
  | status, status' => status = status'

/-- `starting` and `running`. -/
def RunStatus.isOpen (status : RunStatus) : Bool := status = .starting || status = .running

/-- The statements of a run under way or over. -/
def Lived (r : Int) (sql : List Call) : Prop :=
  ∃ jobId begun, Begun r jobId begun ∧
    (sql = begun ∨ ∃ status message endTime, status.isFinal = true ∧
      sql = begun ++ [.finishRun r status message endTime])

/-- The row of a run under way. -/
theorem row_of_begun {r jobId : Int} {sql : List Call} (h : Begun r jobId sql) :
    ∃ row, rowAfter none sql = some row ∧ row.jobid = jobId ∧ row.status.isOpen = true := by
  obtain ⟨database, userName, startTime, rfl | ⟨pid, rfl⟩⟩ := h
  · exact ⟨_, rfl, rfl, rfl⟩
  · by_cases hpid : pid = 0
    · subst hpid
      exact ⟨_, rfl, rfl, rfl⟩
    · refine ⟨_, if_neg hpid, rfl, rfl⟩

/-- The row of a run that is over. -/
theorem row_of_over {r jobId : Int} {begun : List Call} (h : Begun r jobId begun)
    (status : RunStatus) (message : Option CString) (endTime : Int) :
    ∃ row, rowAfter none (begun ++ [.finishRun r status message endTime]) = some row ∧
      row.status = status := by
  obtain ⟨row, hrow, -, -⟩ := row_of_begun h
  rw [rowAfter_append, hrow]
  exact ⟨_, rfl, rfl⟩

/-- **Statuses only move forward** while a run goes on. -/
theorem moves_of_lived {r : Int} {sql more : List Call} (h : Lived r sql)
    (h' : Lived r (sql ++ more)) {row row' : RunRow} (hrow : rowAfter none sql = some row)
    (hrow' : rowAfter none (sql ++ more) = some row') :
    row.status.moves row'.status = true := by
  rw [rowAfter_append, hrow] at hrow'
  have hself : more = [] → row.status.moves row'.status = true := by
    rintro rfl
    obtain rfl : row = row' := Option.some.inj hrow'
    cases row.status <;> rfl
  obtain ⟨_, _, ⟨_, _, _, rfl | ⟨pid, rfl⟩⟩, rfl | ⟨status, message, endTime, -, rfl⟩⟩ := h
  · -- the row has just been inserted
    obtain rfl := Option.some.inj hrow
    rfl
  · -- nothing follows the finishing update
    obtain ⟨_, _, ⟨_, _, _, rfl | ⟨pid', rfl⟩⟩, heq | ⟨_, _, _, -, heq⟩⟩ := h'
    · simp at heq
    · exact hself (by simp_all)
    · simp at heq
    · simp at heq
  · -- the backend may be known, and one finishing update may follow
    obtain ⟨_, _, ⟨_, _, _, rfl | ⟨pid', rfl⟩⟩, 
      heq | ⟨status, message, endTime, hfinal, heq⟩⟩ := h'
    · simp at heq
    · simp at heq
    · exact hself (List.append_cancel_left (heq.trans (by simp_all)))
    · have hmore : more = [.finishRun r status message endTime] := by simp_all
      rw [hmore] at hrow'
      obtain rfl := Option.some.inj hrow'
      by_cases hpid : pid = 0
      · subst hpid
        obtain rfl := Option.some.inj hrow
        rfl
      · obtain rfl := Option.some.inj ((if_neg hpid).symm.trans hrow)
        show decide (status ≠ .starting) = true
        cases status <;> simp_all [RunStatus.isFinal]
  · obtain ⟨_, _, ⟨_, _, _, rfl | ⟨pid', rfl⟩⟩, heq | ⟨_, _, _, -, heq⟩⟩ := h'
    · simp at heq
    · simp at heq
    · simp at heq
    · exact hself (by simp_all)

/-! ### Insertions -/

/-- The runs whose rows the worker has inserted, in order. -/
def World.inserted (w : World) : List Int := Ledger.acquired w.runLog

/-- The step executes `case CRON_TASK_START`: the task is in START and its job is loaded. -/
def World.startsRun (w : World) : Label → Bool
  | .manage jobId _ _ _ =>
    (w.tasks.lookup jobId).any fun task =>
      decide (task.state = .start) && (getCronJob w.jobs task.jobId).isSome
  | _ => false

/-- A run is inserted if it has been acquired. -/
theorem mem_inserted {w : World} {r : Int} : r ∈ w.inserted ↔ .acquire r ∈ w.runLog :=
  Ledger.mem_acquired

/-- Calls that are no statements leave the history alone. -/
theorem foldl_apply_of_no_statement {calls : List Call} (h : statements calls = [])
    (history : History) : calls.foldl History.apply history = history := by
  induction calls with
  | nil => rfl
  | cons call calls ih =>
    rw [statements_cons] at h
    cases hcall : call.isStatement with
    | true => rw [if_pos hcall] at h; exact absurd h (by simp)
    | false =>
      rw [hcall, if_neg Bool.false_ne_true] at h
      have happly : history.apply call = history := by
        cases call with
        | insertRun runId jobId database userName startTime => cases hcall
        | updatePID runId pid => cases hcall
        | finishRun runId status message endTime => cases hcall
        | connectStartParams params conn => rfl
        | sendQuery conn command sent => rfl
        | getResult conn result busy => rfl
        | finish conn => rfl
        | use function conn => rfl
      rw [List.foldl_cons, happly, ih h]

/-- The next id has no row yet. -/
theorem lookup_nextRunId (h : History) (gap : Nat) :
    h.runs.lookup (h.nextRunId gap) = none := by
  rw [AList.lookup_eq_none]
  intro hmem
  have hle := h.bounded _ (AList.mem_keys.mp hmem)
  unfold History.nextRunId at hle
  omega

/-- **Insertions.** A step that executes START inserts one row, under a new id and with the
    status `starting`; every other step inserts none. -/
theorem inserted_step {w : World} (l : Label) :
    if w.startsRun l = true then
      ∃ r row, (w.step l).inserted = w.inserted ++ [r] ∧ w.history.runs.lookup r = none ∧
        (w.step l).history.runs = w.history.runs.insert r row ∧ row.status = .starting
    else (w.step l).inserted = w.inserted := by
  cases l with
  -- only a turn can insert
  | invalidate => exact rfl
  | sighup statementTimeout => exact rfl
  | reload source currentTime => exact rfl
  | startPending currentTime => exact rfl
  | wait io => exact congrArg Ledger.acquired (runLog_wait w io)
  | deleteRuns gone => exact rfl
  | manage jobId currentTime gap io =>
    show if w.startsRun (.manage jobId currentTime gap io) = true then
        ∃ r row, (w.manage jobId currentTime gap io).inserted = w.inserted ++ [r] ∧
          w.history.runs.lookup r = none ∧
          (w.manage jobId currentTime gap io).history.runs = w.history.runs.insert r row ∧
          row.status = .starting
      else (w.manage jobId currentTime gap io).inserted = w.inserted
    cases hold : w.tasks.lookup jobId with
    | none =>
      rw [if_neg (by simp [World.startsRun, hold]), manage_none hold]
    | some task =>
      have hruns := runLog_manage hold currentTime gap io
      rcases (turn_outcome w task currentTime gap io).insertion with
        ⟨job, rest, hstate, hjob, hcalls, hrest⟩ | ⟨hnot, hnone⟩
      · -- the turn of START, with its job loaded
        have hjob' : getCronJob w.jobs task.jobId = some job := hjob
        rw [if_pos (by simp [World.startsRun, hold, hstate, hjob'])]
        refine ⟨w.history.nextRunId gap,
          ⟨job.jobId, none, job.database, job.userName, .starting, none, io.timestamp, none⟩,
          ?_, lookup_nextRunId w.history gap, ?_, rfl⟩
        · rw [World.inserted, hruns, hcalls, Ledger.acquired_append, List.flatMap_cons,
            runEvents_of_no_statement hrest]
          rfl
        · rw [manage_eq hold, hcalls]
          show (rest.foldl History.apply _).runs = _
          rw [foldl_apply_of_no_statement hrest]
          rfl
      · -- any other turn
        change ¬(task.state = .start ∧ (getCronJob w.jobs task.jobId).isSome = true) at hnot
        rw [if_neg (by simpa [World.startsRun, hold] using hnot), World.inserted, hruns,
          Ledger.acquired_append, hnone, List.append_nil]
        rfl

/-! ### A faithful history -/

/-- The task is in flight with the run: it is CONNECTING, SENDING, RUNNING or in ERROR. -/
def CronTask.WorksFor (task : CronTask) (r : Int) : Prop :=
  task.state ∈ [CronTaskState.connecting, .sending, .running, .error] ∧ task.runId ≠ 0 ∧
    task.runId = r

/-- The history of a worker that was started on `history` is faithful. -/
structure Faithful (history : History) (w : World) : Prop where
  /-- START inserts one row, new and `starting`; no other step inserts one -/
  starts : ∀ l, if w.startsRun l = true then
      ∃ r row, (w.step l).inserted = w.inserted ++ [r] ∧ w.history.runs.lookup r = none ∧
        (w.step l).history.runs = w.history.runs.insert r row ∧ row.status = .starting
    else (w.step l).inserted = w.inserted
  /-- a status only moves from `starting` over `running` to one final status -/
  moves : ∀ l r row row', w.history.runs.lookup r = some row →
    (w.step l).history.runs.lookup r = some row' → row.status.moves row'.status = true
  /-- a run is under way in a task of its job and has no finishing update, or it is over, has
      exactly one, and that says `succeeded` just when the run reached RUNNING and its results
      were read to the end without one that fails -/
  runs : ∀ r ∈ w.inserted,
    (∃ k task, w.tasks.lookup k = some task ∧ task.WorksFor r ∧
        Begun r k (statements (w.calls r))) ∨
      ((∀ k task, w.tasks.lookup k = some task → ¬task.WorksFor r) ∧ Over r (w.calls r))
  /-- a task is RUNNING once its query has been sent -/
  running : ∀ k task r, w.tasks.lookup k = some task → task.WorksFor r →
    (task.state = .running → (w.calls r).any Call.startsRunning = true) ∧
      (task.state ∈ [CronTaskState.connecting, .sending] →
        (w.calls r).any Call.startsRunning = false)
  /-- a task in flight has a run of its own, which this worker has inserted -/
  inFlight : ∀ k task, w.tasks.lookup k = some task →
    task.state ∈ [CronTaskState.connecting, .sending, .running, .error] →
    task.WorksFor task.runId ∧ task.runId ∈ w.inserted
  exclusive : ∀ k k' task task' r, w.tasks.lookup k = some task →
    w.tasks.lookup k' = some task' → task.WorksFor r → task'.WorksFor r → k = k'
  /-- the open rows that still exist are those of the tasks in flight -/
  open_iff : ∀ r row, history.lastRunId < r → w.history.runs.lookup r = some row →
    (row.status.isOpen = true ↔ ∃ k task, w.tasks.lookup k = some task ∧ task.WorksFor r)
  /-- a job has at most one open row -/
  one_per_job : ∀ r r' row row', history.lastRunId < r → history.lastRunId < r' →
    w.history.runs.lookup r = some row → w.history.runs.lookup r' = some row' →
    row.status.isOpen = true → row'.status.isOpen = true → row.jobid = row'.jobid → r = r'
  /-- rows that were there before are left alone -/
  earlier : ∀ r row, r ≤ history.lastRunId → w.history.runs.lookup r = some row →
    history.runs.lookup r = some row

/-- The run that is open is the one the task works for. -/
theorem openRun_eq_some_iff {task : CronTask} {r : Int} :
    task.openRun = some r ↔ task.WorksFor r := by
  have hflight : task.state.inFlight = true ↔
      task.state ∈ [CronTaskState.connecting, .sending, .running, .error] := by
    cases task.state <;> decide
  unfold CronTask.openRun CronTask.WorksFor
  rw [← hflight]
  by_cases h : task.state.inFlight = true ∧ task.runId ≠ 0
  · rw [if_pos h, Option.some.injEq]
    exact ⟨fun hr => ⟨h.1, h.2, hr⟩, fun hr => hr.2.2⟩
  · rw [if_neg h]
    exact ⟨fun hr => absurd hr (by simp), fun hr => absurd ⟨hr.1, hr.2.1⟩ h⟩

/-- What is known of every state a worker reaches. -/
structure HistoryOk (history : History) (w : World) : Prop where
  ok : WorldOk w
  filed : w.Filed
  recorded : w.Recorded (fun _ task log => Underway task (log.map Entry.call))
    (fun r log => Over r (log.map Entry.call))
  rows : RowsOk history w

/-- A run that was inserted is under way in a task, or over. -/
theorem HistoryOk.run_cases {history : History} {w : World} (h : HistoryOk history w) {r : Int}
    (hr : r ∈ w.inserted) :
    (∃ k task, w.tasks.lookup k = some task ∧ task.openRun = some r ∧
        Underway task (w.calls r)) ∨
      ((∀ k, w.heldRun k ≠ some r) ∧ Over r (w.calls r)) :=
  h.recorded.cases (mem_inserted.mp hr)

/-- It has the id of the task. -/
theorem runId_of_openRun {task : CronTask} {r : Int} (h : task.openRun = some r) :
    task.runId = r := by
  unfold CronTask.openRun at h
  split at h
  · exact Option.some.inj h
  · exact absurd h (by simp)

/-- A new row was inserted, and is what the statements of its run say. -/
theorem HistoryOk.row {history : History} {w : World} (h : HistoryOk history w) {r : Int}
    {row : RunRow} (hnew : history.lastRunId < r) (hrow : w.history.runs.lookup r = some row) :
    r ∈ w.inserted ∧ rowAfter none (statements (w.calls r)) = some row := by
  have hnone : history.runs.lookup r = none := by
    rw [AList.lookup_eq_none]
    intro hmem
    have hle := history.bounded r (AList.mem_keys.mp hmem)
    omega
  have hafter : rowAfter none (w.calls r) = some row := by
    rcases h.rows.rows r with hgone | heq
    · rw [hgone] at hrow; exact absurd hrow (by simp)
    · rw [← hrow, heq, hnone]
  refine ⟨?_, by rw [rowAfter_statements]; exact hafter⟩
  by_contra hnot
  have hempty : w.log r = [] := log_eq_nil h.filed fun hstarted => hnot (mem_inserted.mpr hstarted)
  rw [World.calls, hempty] at hafter
  exact absurd hafter (by simp [rowAfter])

/-- The statements of a run that was inserted. -/
theorem HistoryOk.lived {history : History} {w : World} (h : HistoryOk history w) {r : Int}
    (hr : r ∈ w.inserted) : Lived r (statements (w.calls r)) := by
  rcases h.run_cases hr with ⟨k, task, hlookup, hopen, hunder⟩ | ⟨-, hover⟩
  · obtain rfl := runId_of_openRun hopen
    exact ⟨task.jobId, _, hunder.begun, Or.inl rfl⟩
  · obtain ⟨jobId, begun, status, message, endTime, hbegun, hsql, hfinal, -⟩ := hover
    exact ⟨jobId, begun, hbegun, Or.inr ⟨status, message, endTime, hfinal, hsql⟩⟩

/-- **What is known of every state a worker reaches.** -/
theorem historyOk_run (statementTimeout : StatementTimeout) (history : History)
    (ls : List Label) :
    HistoryOk history (Machine.run World.step (World.launch statementTimeout history) ls) := by
  have hinv : WorldOk (Machine.run World.step (World.launch statementTimeout history) ls) ∧
      (Machine.run World.step (World.launch statementTimeout history) ls).Filed ∧
      RowsOk history (Machine.run World.step (World.launch statementTimeout history) ls) :=
    Machine.run_induction (P := fun w => WorldOk w ∧ w.Filed ∧ RowsOk history w)
      (fun _ l h => ⟨h.1.step l, filed_step h.1 h.2.1 l, rowsOk_step h.1 h.2.2 l⟩) ls
      ⟨worldOk_launch _ _, filed_launch _ _, rowsOk_launch _ _⟩
  have hkeyed : (World.launch statementTimeout history).JobsKeyed :=
    fun k job hjob => absurd hjob (by simp [World.launch])
  exact ⟨hinv.1, hinv.2.1, underway_rule.recorded _ _
    (Machine.guarded_of_invariant jobsKeyed_step ls hkeyed), hinv.2.2⟩

/-- Rows that were there before are left alone. -/
theorem HistoryOk.earlier {history : History} {w : World} (h : HistoryOk history w) {r : Int}
    {row : RunRow} (hold : r ≤ history.lastRunId) (hrow : w.history.runs.lookup r = some row) :
    history.runs.lookup r = some row := by
  have hempty : w.log r = [] := log_eq_nil h.filed fun hstarted => by
    have hafter := h.rows.started r hstarted
    omega
  rcases h.rows.rows r with hgone | heq
  · rw [hgone] at hrow; exact absurd hrow (by simp)
  · rw [World.calls, hempty] at heq
    exact heq.symm.trans hrow

/-- An open row belongs to a task in flight, under the id of its job. -/
theorem HistoryOk.open_task {history : History} {w : World} (h : HistoryOk history w) {r : Int}
    {row : RunRow} (hnew : history.lastRunId < r) (hrow : w.history.runs.lookup r = some row)
    (hstatus : row.status.isOpen = true) :
    ∃ task, w.tasks.lookup row.jobid = some task ∧ task.WorksFor r := by
  obtain ⟨hinserted, hafter⟩ := h.row hnew hrow
  rcases h.run_cases hinserted with ⟨k, task, hlookup, hrun, hunder⟩ | ⟨-, hover⟩
  · obtain ⟨row', hrow', hjob, -⟩ := row_of_begun hunder.begun
    obtain rfl := Option.some.inj (hafter.symm.trans hrow')
    have hkeyed := (h.ok.tasks k task hlookup).keyed
    rw [hjob, hkeyed]
    exact ⟨task, hlookup, openRun_eq_some_iff.mp hrun⟩
  · obtain ⟨jobId, begun, status, message, endTime, hbegun, hsql, hfinal, -⟩ := hover
    obtain ⟨row', hrow', hfinished⟩ := row_of_over hbegun status message endTime
    rw [← hsql] at hrow'
    obtain rfl := Option.some.inj (hafter.symm.trans hrow')
    rw [hfinished] at hstatus
    cases status <;> simp_all [RunStatus.isOpen, RunStatus.isFinal]

/-- The calls of a run only grow. -/
theorem calls_step (w : World) (l : Label) (r : Int) :
    ∃ more, (w.step l).calls r = w.calls r ++ more := by
  obtain ⟨entries, htrace⟩ := trace_step w l
  exact ⟨_, by rw [World.calls, log_append htrace, List.map_append]; rfl⟩

/-- **Faithful run history.** In every state a worker reaches from its start, in any order of
    reloads, waits, scheduling passes and turns of tasks, and with any replies, the history is
    faithful; the loop boundaries are among these states (`loopIteration_reaches`). -/
theorem runHistory_faithful (statementTimeout : StatementTimeout) (history : History)
    (ls : List Label) :
    Faithful history (Machine.run World.step (World.launch statementTimeout history) ls) := by
  have h := historyOk_run statementTimeout history ls
  have hnext : ∀ l, HistoryOk history
      ((Machine.run World.step (World.launch statementTimeout history) ls).step l) := by
    intro l
    have hrun := historyOk_run statementTimeout history (ls ++ [l])
    rwa [Machine.run_append] at hrun
  generalize Machine.run World.step (World.launch statementTimeout history) ls = w at h hnext
  have howner : ∀ k task r, w.tasks.lookup k = some task → task.WorksFor r →
      w.heldRun k = some r := by
    intro k task r hlookup hworks
    rw [heldRun_of_lookup hlookup]
    exact openRun_eq_some_iff.mpr hworks
  have hopen : ∀ r row, history.lastRunId < r → w.history.runs.lookup r = some row →
      row.status.isOpen = true → ∃ task, w.tasks.lookup row.jobid = some task ∧
        task.WorksFor r := fun r row hnew hrow hstatus => h.open_task hnew hrow hstatus
  constructor
  · exact inserted_step
  · intro l r row row' hrow hrow'
    -- rows of earlier workers do not move; those of this one are what its calls say
    by_cases hold : r ≤ history.lastRunId
    · have hsame := (h.earlier hold hrow).symm.trans ((hnext l).earlier hold hrow')
      obtain rfl := Option.some.inj hsame
      cases row.status <;> rfl
    · obtain ⟨hinserted, hafter⟩ := h.row (by omega) hrow
      obtain ⟨hinserted', hafter'⟩ := (hnext l).row (by omega) hrow'
      obtain ⟨more, hmore⟩ := calls_step w l r
      have hlived := (hnext l).lived hinserted'
      rw [hmore, statements_append] at hafter' hlived
      exact moves_of_lived (h.lived hinserted) hlived hafter hafter'
  · intro r hr
    rcases h.run_cases hr with ⟨k, task, hlookup, hrun, hunder⟩ | ⟨hfree, hover⟩
    · refine Or.inl ⟨k, task, hlookup, openRun_eq_some_iff.mp hrun, ?_⟩
      rw [← (h.ok.tasks k task hlookup).keyed]
      obtain rfl := runId_of_openRun hrun
      exact hunder.begun
    · exact Or.inr ⟨fun k task hlookup hworks => hfree k (howner k task r hlookup hworks), hover⟩
  · intro k task r hlookup hworks
    have hunder : Underway task (w.calls r) :=
      h.recorded.opened k task r hlookup (openRun_eq_some_iff.mpr hworks)
    exact ⟨hunder.running, fun hstate => hunder.notRunning (by simpa using hstate)⟩
  · intro k task hlookup hstate
    have hflight : task.state.inFlight = true := by
      cases hs : task.state <;> simp_all [CronTaskState.inFlight, CronTaskState.isConnected]
    have hpos := (h.ok.tasks k task hlookup).open_run hflight
    have hworks : task.WorksFor task.runId := ⟨hstate, by omega, rfl⟩
    exact ⟨hworks, mem_inserted.mpr (started_of_heldRun h.ok (howner k task _ hlookup hworks))⟩
  · intro k k' task task' r hlookup hlookup' hworks hworks'
    exact h.ok.runs.exclusive k k' r (howner k task r hlookup hworks)
      (howner k' task' r hlookup' hworks')
  · intro r row hnew hrow
    refine ⟨fun hstatus => ⟨row.jobid, hopen r row hnew hrow hstatus⟩, ?_⟩
    rintro ⟨k, task, hlookup, hworks⟩
    have hunder : Underway task (w.calls r) :=
      h.recorded.opened k task r hlookup (openRun_eq_some_iff.mpr hworks)
    obtain ⟨row', hrow', -, hstatus⟩ := row_of_begun hunder.begun
    rw [Option.some.inj ((h.row hnew hrow).2.symm.trans hrow')]
    exact hstatus
  · intro r r' row row' hnew hnew' hrow hrow' hstatus hstatus' hjob
    obtain ⟨task, hlookup, hworks⟩ := hopen r row hnew hrow hstatus
    obtain ⟨task', hlookup', hworks'⟩ := hopen r' row' hnew' hrow' hstatus'
    rw [hjob] at hlookup
    obtain rfl := Option.some.inj (hlookup.symm.trans hlookup')
    exact hworks.2.2.symm.trans hworks'.2.2
  · exact fun r row hold hrow => h.earlier hold hrow

end NedoCron
