import NedoCron.Database
import NedoCron.Invalidation
import NedoCron.Reload
import NedoCron.Removal
import NedoCron.Restart
import Mathlib.Data.List.Induction

namespace NedoCron

/-!
# nedo_cron — sessions and workers on one database

The extension as a whole: sessions run statements on the tables, and the background worker, as
long as it is running, reads the jobs and writes the rows of its runs.  Each SQL statement of
the worker is a transaction of its own; one that violates a constraint raises an error that ends
the worker, and another is started some time later.

* `sound_run` — what holds of a worker whatever the sessions do to the history under it;
* `refusal_iff` — the one statement that ends a worker;
* `effects_committed`, `runs_asScheduled` — what the workers run, and for whom, is what the
  sessions have committed;
* `unscheduled_stays_dead` — a job whose row is gone is not run again.
-/

/-! ### The installation -/

/-- A worker whose history is that of the database. -/
structure Attached (db : Database) where
  world : World
  synced : world.history = db.history

/-- The database, the worker if one is running, and the calls of the workers before it. -/
structure Installation where
  db : Database
  attached : Option (Attached db)
  past : List Entry

inductive InstallationEvent where
  /-- a statement of a session -/
  | session (op : SessionOp)
  /-- a worker is started, if none is running -/
  | launch (statementTimeout : StatementTimeout)
  /-- the worker reloads the jobs -/
  | reload (entry : Int → CronTask) (currentTime : Int)
  /-- another step of the worker -/
  | work (l : Label)
  /-- the worker ends -/
  | exit

/-- Reloads have an event of their own, and the deletions are those of the sessions. -/
def Label.isOwn : Label → Bool
  | .reload _ _ => false
  | .deleteRuns _ => false
  | _ => true

def Installation.worker (s : Installation) : Option World := s.attached.map Attached.world

/-- The calls of all workers. -/
def Installation.trace (s : Installation) : List Entry :=
  s.past ++ (s.worker.map World.trace).getD []

/-- The worker sees the history that a statement of a session leaves, which may be an empty one
    with run ids that start again. -/
def Installation.session (s : Installation) (op : SessionOp) : Installation where
  db := s.db.step op
  attached := s.attached.map fun w => ⟨{ w.world with history := (s.db.step op).history }, rfl⟩
  past := s.past

/-- The worker ends, and its calls with it. -/
def Installation.exit (s : Installation) : Installation :=
  { s with attached := none, past := s.trace }

/-- A step of the worker, committed or refused.  The refused statement has drawn its run id;
    nothing else of the step is done. -/
def Installation.commit (s : Installation) (w : World) : Installation :=
  match h : s.db.withHistory w.history with
  | .ok db => { db := db, attached := some ⟨w, (withHistory_ok h).1.symm⟩, past := s.past }
  | .error _ =>
    { db := s.db.drawRunId w.history.lastRunId, attached := none, past := s.trace }

/-- One event. -/
def Installation.step (s : Installation) : InstallationEvent → Installation
  | .session op => s.session op
  | .launch statementTimeout =>
    match s.attached with
    | none => { s with attached := some ⟨World.launch statementTimeout s.db.history, rfl⟩ }
    | some _ => s
  | .reload entry currentTime =>
    { s with
      attached := s.attached.map fun w =>
        ⟨w.world.step (.reload (scanSource s.db.jobs entry) currentTime), w.synced⟩ }
  | .work l =>
    match s.attached with
    | none => s
    | some w => if l.isOwn then s.commit (w.world.step l) else s
  | .exit => s.exit

/-- The tables right after `CREATE EXTENSION`, and no worker. -/
def newInstallation : Installation where
  db := emptyDatabase
  attached := none
  past := []

/-! ### Steps -/

/-- What an event makes of the database, the worker and the record of calls. -/
inductive Installation.Change (s : Installation) : InstallationEvent → Installation → Prop where
  | session {s' : Installation} (op : SessionOp) (hdb : s'.db = s.db.step op)
      (hworker : s'.worker = s.worker.map fun w => { w with history := (s.db.step op).history })
      (htrace : s'.trace = s.trace) : Change s (.session op) s'
  | launched {s' : Installation} (statementTimeout : StatementTimeout) (hnone : s.worker = none)
      (hdb : s'.db = s.db)
      (hworker : s'.worker = some (World.launch statementTimeout s.db.history))
      (htrace : s'.trace = s.trace) : Change s (.launch statementTimeout) s'
  | loaded {s' : Installation} (entry : Int → CronTask) (currentTime : Int) (w : World)
      (hw : s.worker = some w) (hdb : s'.db = s.db)
      (hworker : s'.worker = some (w.step (.reload (scanSource s.db.jobs entry) currentTime)))
      (htrace : s'.trace = s.trace) : Change s (.reload entry currentTime) s'
  /-- the statements of a step are committed -/
  | worked {s' : Installation} (l : Label) (w : World) (hw : s.worker = some w)
      (hown : l.isOwn = true) (hjobs : s'.db.jobs = s.db.jobs)
      (hid : s'.db.lastJobId = s.db.lastJobId) (hhistory : s'.db.history = (w.step l).history)
      (hworker : s'.worker = some (w.step l))
      (htrace : s'.trace = s.trace ++ w.recorded l) : Change s (.work l) s'
  /-- a statement of a step is refused: it is about a run without a job -/
  | refused {s' : Installation} (l : Label) (w : World) (r : Int) (run : RunRow)
      (hw : s.worker = some w) (hown : l.isOwn = true)
      (hrun : (w.step l).history.runs.lookup r = some run) (hmissing : run.jobid ∉ s.db.jobs.ids)
      (hjobs : s'.db.jobs = s.db.jobs) (hid : s'.db.lastJobId = s.db.lastJobId)
      (hworker : s'.worker = none)
      (htrace : s'.trace = s.trace) : Change s (.work l) s'
  | exited {s' : Installation} (w : World) (hw : s.worker = some w) (hdb : s'.db = s.db)
      (hworker : s'.worker = none) (htrace : s'.trace = s.trace) : Change s .exit s'
  /-- nobody is there to do it -/
  | absent (event : InstallationEvent) (hnone : s.worker = none)
      (hsession : ∀ op, event ≠ .session op) : Change s event s
  /-- a second worker is not started -/
  | running (statementTimeout : StatementTimeout) (w : World) (hw : s.worker = some w) :
      Change s (.launch statementTimeout) s
  | foreign (l : Label) (hown : l.isOwn = false) : Change s (.work l) s

/-- A step of the worker: its statements are accepted, or one is refused. -/
theorem change_commit (s : Installation) {w : World} {l : Label} (hw : s.worker = some w)
    (hown : l.isOwn = true) : s.Change (.work l) (s.commit (w.step l)) := by
  have hold : s.trace = s.past ++ w.trace := by
    rw [Installation.trace, hw]
    rfl
  unfold Installation.commit
  split
  · rename_i db hdb
    obtain ⟨hhistory, hjobs, hid⟩ := withHistory_ok hdb
    refine .worked l w hw hown hjobs hid hhistory rfl ?_
    show s.past ++ (w.step l).trace = s.trace ++ w.recorded l
    rw [hold, trace_eq_recorded, List.append_assoc]
  · rename_i error herror
    obtain ⟨r, run, hrun, hmissing⟩ := withHistory_error_iff.mp ⟨error, herror⟩
    refine .refused l w r run hw hown hrun hmissing rfl rfl rfl ?_
    exact List.append_nil _

/-- **One event.** -/
theorem change_step (s : Installation) (event : InstallationEvent) :
    s.Change event (s.step event) := by
  cases event with
  | session op =>
    obtain ⟨db, attached, past⟩ := s
    cases attached with
    | none => exact .session op rfl rfl rfl
    | some w => exact .session op rfl rfl rfl
  | launch statementTimeout =>
    obtain ⟨db, attached, past⟩ := s
    cases attached with
    | none => exact .launched statementTimeout rfl rfl rfl rfl
    | some w => exact .running statementTimeout w.world rfl
  | reload entry currentTime =>
    obtain ⟨db, attached, past⟩ := s
    cases attached with
    | none => exact .absent _ rfl (by simp)
    | some w => exact .loaded entry currentTime w.world rfl rfl rfl rfl
  | work l =>
    -- a step of the worker counts only if it is one of its own
    show s.Change (.work l) (match s.attached with
      | none => s
      | some w => if l.isOwn then s.commit (w.world.step l) else s)
    cases hattached : s.attached with
    | none => exact .absent _ (by rw [Installation.worker, hattached]; rfl) (by simp)
    | some w =>
      dsimp only
      split
      · rename_i hown
        exact change_commit s (by rw [Installation.worker, hattached]; rfl) hown
      · rename_i hown
        exact .foreign l (by simpa using hown)
  | exit =>
    obtain ⟨db, attached, past⟩ := s
    cases attached with
    | none =>
      have hsame : (Installation.mk db none past).step .exit = ⟨db, none, past⟩ := by
        show Installation.mk db none (past ++ []) = _
        rw [List.append_nil]
      rw [hsame]
      exact .absent _ rfl (by simp)
    | some w => exact .exited w.world rfl rfl rfl (List.append_nil _)

/-! ### What the sessions cannot change -/

/-- The worker sees the history of the database. -/
theorem worker_history {s : Installation} {w : World} (h : s.worker = some w) :
    w.history = s.db.history := by
  obtain ⟨a, -, rfl⟩ := Option.map_eq_some_iff.mp h
  exact a.synced

/-- What holds of a worker whatever becomes of the history under it. -/
structure World.Sound (w : World) : Prop where
  tasks : ∀ k task, w.tasks.lookup k = some task → TaskOk k task
  jobs : w.JobsKeyed

/-- A new worker keeps this. -/
theorem sound_launch (statementTimeout : StatementTimeout) (history : History) :
    (World.launch statementTimeout history).Sound where
  tasks k task h := absurd h (by simp [World.launch])
  jobs k job h := absurd h (by simp [World.launch])

/-- **A step** keeps a worker sound. -/
theorem World.Sound.step {w : World} (h : w.Sound) (l : Label) : (w.step l).Sound := by
  refine ⟨fun k task' hlookup' => ?_, jobsKeyed_step w l h.jobs⟩
  rcases task_step hlookup' with ⟨task, hlookup, hstep⟩ | ⟨source, currentTime, -, -, rfl⟩
  · have hok := h.tasks k task hlookup
    rcases hstep.run_cases with hidles | ⟨leftover, fmt, args, pollingStatus, hstate, rfl⟩ |
      ⟨currentTime, gap, io, rfl, hkept⟩
    · exact hok.congr hidles.sameRun
    · have hrun := hok.open_run (isConnected_inFlight hstate)
      exact (TaskOk.fail hok.keyed hrun leftover fmt args).congr ⟨rfl, rfl, rfl, rfl, rfl⟩
    · exact (turn_outcome w task currentTime gap io).taskOk hok (nextRunId_pos w.history gap) hkept
  · exact (taskOk_initCronTask (source.entry k) k).congr ⟨rfl, rfl, rfl, rfl, rfl⟩

/-- **An event** keeps the worker sound. -/
theorem sound_step {s : Installation} (h : ∀ w, s.worker = some w → w.Sound)
    (event : InstallationEvent) : ∀ w, (s.step event).worker = some w → w.Sound := by
  have hchange := change_step s event
  generalize s.step event = s' at hchange
  intro w' hw'
  cases hchange with
  -- a session changes the history only, which nothing here is about
  | session op hdb hworker htrace =>
    rw [hworker] at hw'
    obtain ⟨w, hw, rfl⟩ := Option.map_eq_some_iff.mp hw'
    exact ⟨(h w hw).tasks, (h w hw).jobs⟩
  | launched statementTimeout hnone hdb hworker htrace =>
    obtain rfl := Option.some.inj (hworker.symm.trans hw')
    exact sound_launch statementTimeout s.db.history
  | loaded entry currentTime w hw hdb hworker htrace =>
    obtain rfl := Option.some.inj (hworker.symm.trans hw')
    exact (h w hw).step _
  | worked l w hw hown hjobs hid hhistory hworker htrace =>
    obtain rfl := Option.some.inj (hworker.symm.trans hw')
    exact (h w hw).step l
  | refused l w r run hw hown hrun hmissing hjobs hid hworker htrace =>
    rw [hworker] at hw'
    cases hw'
  | exited w hw hdb hworker htrace =>
    rw [hworker] at hw'
    cases hw'
  | absent => exact h w' hw'
  | running => exact h w' hw'
  | foreign => exact h w' hw'

/-- **In every state an installation reaches, the worker is sound.** -/
theorem sound_run (events : List InstallationEvent) :
    ∀ w, (Machine.run Installation.step newInstallation events).worker = some w → w.Sound :=
  Machine.run_induction (P := fun s : Installation => ∀ w, s.worker = some w → w.Sound)
    (fun _ event h => sound_step h event) events fun w hw => by cases hw

/-! ### Statements that are refused -/

/-- The job of a row is that of the row before, or of an insertion. -/
theorem rowAfter_jobid {row : Option RunRow} {calls : List Call} {run : RunRow}
    (h : rowAfter row calls = some run) :
    (∃ old, row = some old ∧ old.jobid = run.jobid) ∨
      ∃ r database userName startTime,
        .insertRun r run.jobid database userName startTime ∈ calls := by
  induction calls generalizing row with
  | nil => exact Or.inl ⟨run, h, rfl⟩
  | cons call calls ih =>
    rcases ih h with ⟨old, hold, hjob⟩ | ⟨r, database, userName, startTime, hmem⟩
    · -- the insertion decides the job; the updates keep it
      cases call with
      | insertRun r jobId database userName startTime =>
        cases hold
        exact Or.inr ⟨r, database, userName, startTime, by rw [← hjob]; exact List.mem_cons_self⟩
      | updatePID r pid =>
        change (if pid = 0 then row else row.map _) = some old at hold
        split at hold
        · exact Or.inl ⟨old, hold, hjob⟩
        · obtain ⟨before, hbefore, rfl⟩ := Option.map_eq_some_iff.mp hold
          exact Or.inl ⟨before, hbefore, hjob⟩
      | finishRun r status message endTime =>
        obtain ⟨before, hbefore, rfl⟩ := Option.map_eq_some_iff.mp hold
        exact Or.inl ⟨before, hbefore, hjob⟩
      | connectStartParams params conn => exact Or.inl ⟨old, hold, hjob⟩
      | sendQuery conn command sent => exact Or.inl ⟨old, hold, hjob⟩
      | getResult conn result busy => exact Or.inl ⟨old, hold, hjob⟩
      | finish conn => exact Or.inl ⟨old, hold, hjob⟩
      | use function conn => exact Or.inl ⟨old, hold, hjob⟩
    · exact Or.inr ⟨r, database, userName, startTime, List.mem_cons_of_mem _ hmem⟩

/-- The step starts a run of the job `k`. -/
def World.StartsJob (w : World) (k : Int) (l : Label) : Prop :=
  ∃ currentTime gap io task job, l = .manage k currentTime gap io ∧
    w.tasks.lookup k = some task ∧ task.state = .start ∧ getCronJob w.jobs k = some job

/-- **Where the rows come from**: a row after a step has the job of the row before it, or the step
    starts a run of its job. -/
theorem jobid_step {w : World} (h : w.Sound) (l : Label) {r : Int}
    {run : RunRow} (hrun : (w.step l).history.runs.lookup r = some run) :
    (∃ old, w.history.runs.lookup r = some old ∧ old.jobid = run.jobid) ∨
      w.StartsJob run.jobid l := by
  cases l with
  | invalidate => exact Or.inl ⟨run, hrun, rfl⟩
  | sighup statementTimeout => exact Or.inl ⟨run, hrun, rfl⟩
  | reload source currentTime => exact Or.inl ⟨run, hrun, rfl⟩
  | startPending currentTime => exact Or.inl ⟨run, hrun, rfl⟩
  | wait io =>
    refine Or.inl ⟨run, ?_, rfl⟩
    rw [← (wait_rest w io).2.2]
    exact hrun
  | deleteRuns gone =>
    change (Table.keep _ w.history.runs).lookup r = some run at hrun
    rw [Table.lookup_keep] at hrun
    exact Or.inl ⟨run, (Option.filter_eq_some_iff.mp hrun).1, rfl⟩
  | manage jobId currentTime gap io =>
    change (w.manage jobId currentTime gap io).history.runs.lookup r = some run at hrun
    cases hold : w.tasks.lookup jobId with
    | none =>
      rw [manage_none hold] at hrun
      exact Or.inl ⟨run, hrun, rfl⟩
    | some task =>
      have houtcome := turn_outcome w task currentTime gap io
      rw [manage_eq hold] at hrun
      change ((w.turn task currentTime gap io).calls.foldl History.apply w.history).runs.lookup r
        = some run at hrun
      rw [lookup_foldl_apply _ w.history fun call hcall => houtcome.runEvents_run hcall] at hrun
      by_cases hr : (w.turn task currentTime gap io).run = r
      · rw [if_pos hr] at hrun
        rcases rowAfter_jobid hrun with hbefore | ⟨r', database, userName, startTime, hcall⟩
        · exact Or.inl hbefore
        · rcases houtcome.mem_calls hcall with ⟨job, hjob, hstate, -, heq | ⟨conn, heq⟩⟩ |
            ⟨job, sent, -, -, heq⟩ | hplain
          · -- the insertion of START is for the task's own job
            have hkeyed := (h.tasks jobId task hold).keyed
            obtain ⟨-, hid, -⟩ := Call.insertRun.inj heq
            have hself : run.jobid = jobId := by
              rw [hid, jobId_of_context h.jobs hjob, hkeyed]
            have hloaded : getCronJob w.jobs task.jobId = some job := hjob
            rw [hkeyed] at hloaded
            rw [hself]
            exact Or.inr ⟨currentTime, gap, io, task, job, rfl, hold, hstate, hloaded⟩
          · cases heq
          · cases heq
          · cases hplain
      · rw [if_neg hr] at hrun
        exact Or.inl ⟨run, hrun, rfl⟩

/-- A step that starts a run of a job leaves a row of that job. -/
theorem row_of_startsJob {w : World} (h : w.Sound) {k : Int}
    {l : Label} (hstarts : w.StartsJob k l) :
    ∃ r run, (w.step l).history.runs.lookup r = some run ∧ run.jobid = k := by
  obtain ⟨currentTime, gap, io, task, job, rfl, hold, hstate, hjob⟩ := hstarts
  have hkeyed := (h.tasks k task hold).keyed
  have hcontext : (w.context task currentTime gap).job = some job := by
    show getCronJob w.jobs task.jobId = some job
    rw [hkeyed, hjob]
  rcases (turn_outcome w task currentTime gap io).insertion with
    ⟨job', rest, -, hjob', hcalls, hrest⟩ | ⟨hnot, -⟩
  · obtain rfl := Option.some.inj (hcontext.symm.trans hjob')
    have hid : job.jobId = k := (jobId_of_context h.jobs hcontext).trans hkeyed
    refine ⟨w.history.nextRunId gap,
      ⟨job.jobId, none, job.database, job.userName, .starting, none, io.timestamp, none⟩, ?_, hid⟩
    show (w.manage k currentTime gap io).history.runs.lookup _ = _
    rw [manage_eq hold, hcalls]
    show (rest.foldl History.apply _).runs.lookup _ = _
    rw [foldl_apply_of_no_statement hrest]
    exact AList.lookup_insert _
  · exact absurd ⟨hstate, by rw [hcontext]; rfl⟩ hnot

/-- **The one statement that is refused.**  In every state an installation reaches, a step of the
    worker ends it exactly if it starts a run of a job that the worker has loaded and whose row
    has been deleted since. -/
theorem refusal_iff (events : List InstallationEvent) :
    let s := Machine.run Installation.step newInstallation events
    ∀ w, s.worker = some w → ∀ l, l.isOwn = true →
      ((s.step (.work l)).worker = none ↔ ∃ k, w.StartsJob k l ∧ s.db.row k = none) := by
  intro s w hw l hown
  have hsound := sound_run events w hw
  have hchange := change_step s (.work l)
  generalize s.step (.work l) = s' at hchange
  cases hchange with
  | worked _ w' hw' _ hjobs hid hhistory hworker =>
    obtain rfl := Option.some.inj (hw.symm.trans hw')
    refine iff_of_false (by rw [hworker]; simp) ?_
    rintro ⟨k, hstarts, hnone⟩
    -- the row of the run is there, so its job is
    obtain ⟨r, run, hrun, rfl⟩ := row_of_startsJob hsound hstarts
    rw [Database.row_eq_none, ← hjobs] at hnone
    exact hnone (s'.db.referenced r run (by rw [hhistory]; exact hrun))
  | refused _ w' r run hw' _ hrun hmissing _ _ hworker =>
    obtain rfl := Option.some.inj (hw.symm.trans hw')
    refine iff_of_true hworker ?_
    rcases jobid_step hsound l hrun with ⟨old, hold, hjob⟩ | hstarts
    · rw [worker_history hw] at hold
      exact absurd (hjob ▸ s.db.referenced r old hold) hmissing
    · exact ⟨run.jobid, hstarts, Database.row_eq_none.mpr hmissing⟩
  | absent _ hnone =>
    rw [hw] at hnone
    cases hnone
  | foreign _ hnot =>
    rw [hown] at hnot
    cases hnot

/-- A job that is unscheduled when its run is about to start. -/
def unscheduledAtStart : List InstallationEvent :=
  [.session (.schedule aliceSession (ascii "5 seconds") (ascii "SELECT 1")), .launch defaultTimeout,
    .reload (fun _ => clearedEntry) 0, .work (.startPending 1000000), .work (.startPending 6000000),
    .work (.manage 1 6000000 0 smoothReplies), .session (.unschedule 1)]

/-- The theorem at the START of that run. -/
theorem refusal_iff_unscheduled :
    let s := Machine.run Installation.step newInstallation unscheduledAtStart
    s.worker.isSome = true ∧
      (s.step (.work (.manage 1 6000000 0 smoothReplies))).worker = none := by
  intro s
  -- the task of the job is in START, and its job is still loaded
  have hready : (s.worker.any fun w =>
      ((w.tasks.lookup 1).any fun task => decide (task.state = .start)) &&
        (getCronJob w.jobs 1).isSome) = true := by decide +kernel
  obtain ⟨w, hw, hboth⟩ := (Option.any_eq_true _ _).mp hready
  obtain ⟨hstart, hloaded⟩ := Bool.and_eq_true_iff.mp hboth
  obtain ⟨task, hold, hstate⟩ := (Option.any_eq_true _ _).mp hstart
  obtain ⟨job, hjob⟩ := Option.isSome_iff_exists.mp hloaded
  refine ⟨by rw [hw]; rfl, ?_⟩
  exact (refusal_iff unscheduledAtStart w hw (.manage 1 6000000 0 smoothReplies) rfl).mpr
    ⟨1, ⟨6000000, 0, smoothReplies, task, job, rfl, hold, of_decide_eq_true hstate, hjob⟩,
      by decide +kernel⟩

/-! ### What the worker hands out -/

/-- A call hands out what the row says: the run is inserted for its job, database and user, the
    connection is opened with them to its host and port, and the query is its command. -/
def JobRow.Grants (row : JobRow) : Call → Prop
  | .insertRun _ jobId database userName _ =>
    jobId = row.jobid ∧ database = row.database ∧ userName = row.username
  | .connectStartParams params _ =>
    params.host = row.nodename ∧ params.port = vsnprintf [] 12 (ascii "%d") [.int row.nodeport] ∧
      params.dbname = row.database ∧ params.user = row.username
  | .sendQuery _ command _ => command = row.command
  | _ => True

/-- Calls that hand out nothing are granted by any row. -/
theorem grants_of_isPlain {call : Call} (h : call.isPlain = true) (row : JobRow) :
    row.Grants call := by
  cases call with
  | insertRun runId jobId database userName startTime => cases h
  | connectStartParams params conn => cases h
  | sendQuery conn command sent => cases h
  | updatePID runId pid => trivial
  | finishRun runId status message endTime => trivial
  | getResult conn result busy => trivial
  | finish conn => trivial
  | use function conn => trivial

/-- What a step of the worker hands out it takes from a loaded job; a run is inserted and a
    connection opened only where a run of that job starts. -/
theorem recorded_cases {w : World} (h : w.Sound) {l : Label}
    {e : Entry} (he : e ∈ w.recorded l) :
    e.call.isPlain = true ∨ ∃ job, getCronJob w.jobs e.jobId = some job ∧
      (∀ row : JobRow, row.Carries job → row.Grants e.call) ∧
      (w.StartsJob e.jobId l ∨ ∃ conn command sent, e.call = .sendQuery conn command sent) := by
  rcases mem_recorded he with hsocket | ⟨task, gap, io, rfl, hold, -, hcall⟩
  · -- a call of a wait hands out nothing
    left
    cases hcase : e.call with
    | use function conn => rfl
    | _ =>
      rw [hcase] at hsocket
      cases hsocket
  · have hkeyed := (h.tasks e.jobId task hold).keyed
    have hjob_of : ∀ job, (w.context task e.time gap).job = some job →
        getCronJob w.jobs e.jobId = some job := by
      intro job hjob
      rw [← hkeyed]
      exact hjob
    -- in a turn, START and SENDING hand out what the loaded job says
    rcases (turn_outcome w task e.time gap io).mem_calls hcall with
      ⟨job, hjob, hstate, -, hcases⟩ | ⟨job, sent, hjob, hstate, heq⟩ | hplain
    · refine Or.inr ⟨job, hjob_of job hjob, fun row hrow => ?_,
        Or.inl ⟨e.time, gap, io, task, job, rfl, hold, hstate, hjob_of job hjob⟩⟩
      rcases hcases with heq | ⟨conn, heq⟩
      · rw [heq]
        exact ⟨hrow.jobId, hrow.database, hrow.userName⟩
      · rw [heq]
        refine ⟨hrow.nodeName, ?_, hrow.database, hrow.userName⟩
        show vsnprintf [] 12 (ascii "%d") [.int job.nodePort] = _
        rw [hrow.nodePort]
    · refine Or.inr ⟨job, hjob_of job hjob, fun row hrow => ?_, Or.inr ⟨_, _, _, heq⟩⟩
      rw [heq]
      exact hrow.command
    · exact Or.inl hplain

/-! ### What was committed -/

/-- **A reload skips no row.**  Since `check_schedule` guards the table, every row in it becomes a
    job: `TupleToJob` has nothing to warn about. -/
theorem loadJobsList_complete (db : Database) :
    (loadJobsList false true db.jobs).keys.Perm db.jobs.ids ∧
      ∀ k row, db.row k = some row →
        ∃ job, getCronJob (loadJobsList false true db.jobs) k = some job ∧ row.Carries job := by
  have hparses : ∀ row ∈ db.jobs.rows, row.Parses := by
    intro row hrow
    show (parseWithError row.schedule (some ⟨[], [], 0, 0⟩)).1.isSome = true
    rw [parseWithError_fst]
    exact db.checked row hrow
  refine ⟨?_, fun k row hrow => ?_⟩
  · have hall : db.jobs.rows.filter (fun row => row.Parses) = db.jobs.rows :=
      List.filter_eq_self.mpr fun row hrow => decide_eq_true (hparses row hrow)
    have hkeys := keys_loadJobsList db.jobs
    rw [hall] at hkeys
    exact hkeys
  · obtain ⟨hmem, hid⟩ := Database.row_eq_some.mp hrow
    obtain ⟨job, hjob⟩ := Option.isSome_iff_exists.mp (JobRow.parses_iff.mp (hparses row hmem))
    exact ⟨job, (lookup_loadJobsList _ k job).mpr ⟨row, hmem, hid, hjob⟩,
      JobRow.toJob_eq_some.mp hjob⟩

/-- The installation after some events. -/
abbrev installed (events : List InstallationEvent) : Installation :=
  Machine.run Installation.step newInstallation events

/-- The installation after one more event. -/
theorem installed_snoc (events : List InstallationEvent) (event : InstallationEvent) :
    installed (events ++ [event]) = (installed events).step event :=
  Machine.run_append newInstallation events [event]

/-- The event is a reload. -/
def InstallationEvent.isReload : InstallationEvent → Bool
  | .reload _ _ => true
  | _ => false

/-- The row was in the table at the last reload. -/
def ReadLast (events : List InstallationEvent) (row : JobRow) : Prop :=
  ∃ before reload after, events = before ++ reload :: after ∧ reload.isReload = true ∧
    (∀ event ∈ after, event.isReload = false) ∧ row ∈ (installed before).db.jobs.rows

/-- An event that is no reload does not change what was read last. -/
theorem ReadLast.snoc {events : List InstallationEvent} {row : JobRow} (h : ReadLast events row)
    {event : InstallationEvent} (hevent : event.isReload = false) :
    ReadLast (events ++ [event]) row := by
  obtain ⟨before, reload, after, rfl, hreload, hafter, hrow⟩ := h
  refine ⟨before, reload, after ++ [event], by simp, hreload, fun event' hmem => ?_, hrow⟩
  rcases List.mem_append.mp hmem with hmem | hmem
  · exact hafter event' hmem
  · rw [List.mem_singleton.mp hmem]
    exact hevent

/-- **The loaded jobs** are rows that were in the table at the last reload. -/
theorem loaded_readLast (events : List InstallationEvent) {w : World}
    (hw : (installed events).worker = some w) {k : Int} {job : CronJob}
    (hjob : getCronJob w.jobs k = some job) :
    ∃ row, ReadLast events row ∧ row.jobid = k ∧ row.Carries job := by
  induction events using List.reverseRecOn generalizing w with
  | nil => cases hw
  | append_singleton events event ih =>
    -- whatever is no reload leaves the loaded jobs and the rows read alone
    have hkeep : event.isReload = false → ∀ w₀, (installed events).worker = some w₀ →
        getCronJob w₀.jobs k = some job →
        ∃ row, ReadLast (events ++ [event]) row ∧ row.jobid = k ∧ row.Carries job := by
      intro hevent w₀ hw₀ hjob₀
      obtain ⟨row, hread, hid, hcarries⟩ := ih hw₀ hjob₀
      exact ⟨row, hread.snoc hevent, hid, hcarries⟩
    rw [installed_snoc] at hw
    have hchange := change_step (installed events) event
    generalize (installed events).step event = s' at hchange hw
    cases hchange with
    | session op hdb hworker htrace =>
      rw [hworker] at hw
      obtain ⟨w₀, hw₀, rfl⟩ := Option.map_eq_some_iff.mp hw
      exact hkeep rfl w₀ hw₀ hjob
    | launched statementTimeout hnone hdb hworker htrace =>
      obtain rfl := Option.some.inj (hworker.symm.trans hw)
      exact absurd hjob (by simp [World.launch, getCronJob])
    | loaded entry currentTime w₀ hw₀ hdb hworker htrace =>
      obtain rfl := Option.some.inj (hworker.symm.trans hw)
      -- at a reload the row is the one that becomes the job
      obtain ⟨row, hrow, hid, htoJob⟩ := (lookup_loadJobsList _ k job).mp hjob
      exact ⟨row, ⟨events, _, [], rfl, rfl, by simp, hrow⟩, hid, JobRow.toJob_eq_some.mp htoJob⟩
    | worked l w₀ hw₀ hown hjobs hid hhistory hworker htrace =>
      obtain rfl := Option.some.inj (hworker.symm.trans hw)
      refine hkeep rfl w₀ hw₀ ?_
      rcases jobs_step w₀ l with hsame | ⟨source, currentTime, rfl, -⟩
      · rw [← hsame]
        exact hjob
      · cases hown
    | refused l w₀ r run hw₀ hown hrun hmissing hjobs hid hworker htrace =>
      rw [hworker] at hw
      cases hw
    | exited w₀ hw₀ hdb hworker htrace =>
      rw [hworker] at hw
      cases hw
    | absent _ hnone =>
      rw [hw] at hnone
      cases hnone
    | running statementTimeout w₀ hw₀ => exact hkeep rfl w hw hjob
    | foreign l hown => exact hkeep rfl w hw hjob

/-- Every call on record was made in a step of a worker. -/
theorem recorded_of_mem_trace (events : List InstallationEvent) {e : Entry}
    (he : e ∈ (installed events).trace) :
    ∃ before l after w, events = before ++ .work l :: after ∧
      (installed before).worker = some w ∧ e ∈ w.recorded l := by
  induction events using List.reverseRecOn with
  | nil => cases he
  | append_singleton events event ih =>
    -- an entry that was there before
    have hbefore : e ∈ (installed events).trace →
        ∃ before l after w, events ++ [event] = before ++ .work l :: after ∧
          (installed before).worker = some w ∧ e ∈ w.recorded l := by
      intro he
      obtain ⟨before, l, after, w, rfl, hw, hrecorded⟩ := ih he
      exact ⟨before, l, after ++ [event], w, by simp, hw, hrecorded⟩
    rw [installed_snoc] at he
    have hchange := change_step (installed events) event
    generalize (installed events).step event = s' at hchange he
    cases hchange with
    | session op hdb hworker htrace => exact hbefore (htrace ▸ he)
    | launched statementTimeout hnone hdb hworker htrace => exact hbefore (htrace ▸ he)
    | loaded entry currentTime w hw hdb hworker htrace => exact hbefore (htrace ▸ he)
    | worked l w hw hown hjobs hid hhistory hworker htrace =>
      rw [htrace] at he
      -- an entry of this step
      rcases List.mem_append.mp he with he | he
      · exact hbefore he
      · exact ⟨events, l, [], w, rfl, hw, he⟩
    | refused l w r run hw hown hrun hmissing hjobs hid hworker htrace =>
      exact hbefore (htrace ▸ he)
    | exited w hw hdb hworker htrace => exact hbefore (htrace ▸ he)
    | absent => exact hbefore he
    | running => exact hbefore he
    | foreign => exact hbefore he

/-- **What the worker runs, and for whom, is what was committed at its last reload.**  A step of
    the worker inserts a run, opens a connection or sends a query for a job only as a row of that
    job says which was in the table when the worker last reloaded. -/
theorem effects_committed (events : List InstallationEvent) :
    ∀ w, (installed events).worker = some w → ∀ l, ∀ e ∈ w.recorded l,
      e.call.isPlain = true ∨
        ∃ row, ReadLast events row ∧ row.jobid = e.jobId ∧ row.Grants e.call := by
  intro w hw l e he
  have hsound := sound_run events w hw
  rcases recorded_cases hsound he with hplain | ⟨job, hjob, hgrants, -⟩
  · exact Or.inl hplain
  · obtain ⟨row, hread, hid, hcarries⟩ := loaded_readLast events hw hjob
    exact Or.inr ⟨row, hread, hid, hgrants row hcarries⟩

/-- A run of a job that alice has scheduled, up to the sending of its query. -/
def readyToSend : List InstallationEvent :=
  [.session (.schedule aliceSession (ascii "5 seconds") (ascii "SELECT 1")), .launch defaultTimeout,
    .reload (fun _ => clearedEntry) 0, .work (.startPending 1000000), .work (.startPending 6000000),
    .work (.manage 1 6000000 0 smoothReplies), .work (.manage 1 6000000 0 smoothReplies),
    .work (.wait (readyWait 6000000)), .work (.manage 1 6000000 0 smoothReplies),
    .work (.wait (readyWait 6000000))]

/-- The theorem at that step. -/
theorem effects_committed_sending :
    ∃ row, ReadLast readyToSend row ∧ row.jobid = 1 ∧ ascii "SELECT 1" = row.command := by
  have hready : ((installed readyToSend).worker.any fun w =>
      decide (⟨1, 1, 6000000, .sendQuery (some 1) (ascii "SELECT 1") true⟩ ∈
        w.recorded (.manage 1 6000000 0 smoothReplies))) = true := by decide +kernel
  obtain ⟨w, hw, hrecorded⟩ := (Option.any_eq_true _ _).mp hready
  rcases effects_committed readyToSend w hw _ _ (of_decide_eq_true hrecorded) with
    hplain | ⟨row, hread, hid, hgrants⟩
  · cases hplain
  · exact ⟨row, hread, hid, hgrants⟩

/-! ### Jobs that only `schedule` has made -/

/-- A call of `schedule` has returned the id of the row, and stored the row. -/
def ScheduledAs (events : List InstallationEvent) (row : JobRow) : Prop :=
  ∃ before session schedule command after,
    events = before ++ .session (.schedule session schedule command) :: after ∧
      (scheduleJob (installed before).db session schedule command).1 = .ok row.jobid ∧
      row = session.row row.jobid schedule command

/-- What has been scheduled stays scheduled. -/
theorem ScheduledAs.append {events : List InstallationEvent} {row : JobRow}
    (h : ScheduledAs events row) (later : List InstallationEvent) :
    ScheduledAs (events ++ later) row := by
  obtain ⟨before, session, schedule, command, after, rfl, hcall, hrow⟩ := h
  exact ⟨before, session, schedule, command, after ++ later, by simp, hcall, hrow⟩

/-- The event is a statement that lets the ids of jobs start again. -/
def InstallationEvent.restarts : InstallationEvent → Bool
  | .session op => op.restarts
  | _ => false

/-- Ids are not given back, except by a restart. -/
theorem lastJobId_event (s : Installation) {event : InstallationEvent}
    (hevent : event.restarts = false) : s.db.lastJobId ≤ (s.step event).db.lastJobId := by
  have hchange := change_step s event
  generalize s.step event = s' at hchange
  cases hchange with
  | session op hdb =>
    rw [hdb]
    exact lastJobId_step s.db hevent
  | launched _ _ hdb => rw [hdb]
  | loaded _ _ _ _ hdb => rw [hdb]
  | worked _ _ _ _ _ hid => rw [hid]
  | refused _ _ _ _ _ _ _ _ _ hid => rw [hid]
  | exited _ _ hdb => rw [hdb]
  | absent => exact le_refl _
  | running => exact le_refl _
  | foreign => exact le_refl _

/-- Likewise over a list of events. -/
theorem lastJobId_events (s : Installation) {events : List InstallationEvent}
    (hevents : ∀ event ∈ events, event.restarts = false) :
    s.db.lastJobId ≤ (Machine.run Installation.step s events).db.lastJobId := by
  induction events generalizing s with
  | nil => exact le_refl _
  | cons event events ih =>
    exact le_trans (lastJobId_event s (hevents event List.mem_cons_self))
      (ih (s.step event) fun event hmem => hevents event (List.mem_cons_of_mem _ hmem))

/-- A later call of `schedule` returns a greater id, unless the ids have started again. -/
theorem scheduleJob_lt {before mid : List InstallationEvent} {session session' : Session}
    {schedule command schedule' command' : CString} {k k' : Int}
    (hmid : ∀ event ∈ mid, event.restarts = false)
    (hcall : (scheduleJob (installed before).db session schedule command).1 = .ok k)
    (hcall' : (scheduleJob
      (installed (before ++ .session (.schedule session schedule command) :: mid)).db session'
      schedule' command').1 = .ok k') : k < k' := by
  have hscheduled : (SessionOp.schedule session schedule command).scheduled (installed before).db =
      some k := by
    show (scheduleJob (installed before).db session schedule command).1.toOption = some k
    rw [hcall]
    rfl
  have hscheduled' : (SessionOp.schedule session' schedule' command').scheduled
      (installed (before ++ .session (.schedule session schedule command) :: mid)).db =
        some k' := by
    show Except.toOption (scheduleJob _ session' schedule' command').1 = some k'
    rw [hcall']
    rfl
  -- in between the sequence only grows
  have hgrows := lastJobId_events
    ((installed before).step (.session (.schedule session schedule command))) hmid
  have hsame : Machine.run Installation.step
      ((installed before).step (.session (.schedule session schedule command))) mid =
        installed (before ++ .session (.schedule session schedule command) :: mid) := by
    show Machine.run Installation.step (installed before)
      (.session (.schedule session schedule command) :: mid) = _
    exact (Machine.run_append newInstallation before _).symm
  rw [hsame] at hgrows
  calc k ≤ ((installed before).db.step (.schedule session schedule command)).lastJobId :=
        (scheduled_lt hscheduled).2
    _ ≤ (installed (before ++ .session (.schedule session schedule command) :: mid)).db.lastJobId :=
        hgrows
    _ < k' := (scheduled_lt hscheduled').1

/-- **One call for an id**: what `schedule` has stored under an id is determined by it, if the ids
    have not started again. -/
theorem ScheduledAs.unique {events : List InstallationEvent}
    (hids : ∀ event ∈ events, event.restarts = false) {row row' : JobRow}
    (h : ScheduledAs events row) (h' : ScheduledAs events row') (hid : row.jobid = row'.jobid) :
    row = row' := by
  obtain ⟨before, session, schedule, command, after, hevents, hcall, hrow⟩ := h
  obtain ⟨before', session', schedule', command', after', hevents', hcall', hrow'⟩ := h'
  -- of two different calls, one is later than the other
  rcases List.append_eq_append_iff.mp (hevents.symm.trans hevents') with
    ⟨mid, rfl, hmid⟩ | ⟨mid, rfl, hmid⟩
  · cases mid with
    | nil =>
      obtain ⟨heq, -⟩ := List.cons.inj hmid
      obtain ⟨rfl, rfl, rfl⟩ := SessionOp.schedule.inj (InstallationEvent.session.inj heq)
      rw [hrow, hrow', hid]
    | cons event mid =>
      obtain ⟨rfl, -⟩ := List.cons.inj hmid
      exact absurd hid (ne_of_lt
        (scheduleJob_lt (fun e he => hids e (by rw [hevents']; simp [he])) hcall hcall'))
  · cases mid with
    | nil =>
      obtain ⟨heq, -⟩ := List.cons.inj hmid
      obtain ⟨rfl, rfl, rfl⟩ := SessionOp.schedule.inj (InstallationEvent.session.inj heq)
      rw [hrow, hrow', hid]
    | cons event mid =>
      obtain ⟨rfl, -⟩ := List.cons.inj hmid
      exact absurd hid.symm (ne_of_lt
        (scheduleJob_lt (fun e he => hids e (by rw [hevents]; simp [he])) hcall' hcall))

/-- The statement writes rows of the jobs table by itself. -/
def SessionOp.writesRows : SessionOp → Bool
  | .insert _ => true
  | .insertNext _ => true
  | .update _ _ => true
  | _ => false

/-- **Where rows come from** when no session writes the table by itself: the row was there before,
    or the statement is the call of `schedule` that returns its id. -/
theorem rows_step {db : Database} {op : SessionOp} (hop : op.writesRows = false) {row : JobRow}
    (hrow : row ∈ (db.step op).jobs.rows) :
    row ∈ db.jobs.rows ∨ ∃ session schedule command, op = .schedule session schedule command ∧
      (scheduleJob db session schedule command).1 = .ok row.jobid ∧
      row = session.row row.jobid schedule command := by
  cases op with
  | schedule session schedule command =>
    -- only `schedule` adds a row, and that is the session's
    change row ∈ (scheduleJob db session schedule command).2.jobs.rows at hrow
    have hcases := scheduleJob_cases db session schedule command
    generalize hr : scheduleJob db session schedule command = r at hcases hrow
    cases hcases with
    | rejected => exact Or.inl hrow
    | exhausted => exact Or.inl hrow
    | taken _ _ hjobs =>
      rw [hjobs] at hrow
      exact Or.inl hrow
    | inserted _ _ hrows =>
      rw [hrows] at hrow
      rcases List.mem_append.mp hrow with hrow | hrow
      · exact Or.inl hrow
      · obtain rfl := List.mem_singleton.mp hrow
        exact Or.inr ⟨session, schedule, command, rfl, by rw [hr]; rfl, rfl⟩
  | unschedule jobId =>
    change row ∈ (unscheduleJob db jobId).2.jobs.rows at hrow
    unfold unscheduleJob at hrow
    split at hrow
    · exact Or.inl (List.mem_filter.mp hrow).1
    · exact Or.inl hrow
  -- rows made by hand are excluded
  | insert row => cases hop
  | insertNext row => cases hop
  | update jobid set => cases hop
  | delete gone => exact Or.inl (List.mem_filter.mp hrow).1
  | deleteRuns gone => exact Or.inl hrow
  | truncate => exact absurd hrow List.not_mem_nil
  | truncateRuns => exact Or.inl hrow

/-- The rows in the table have been stored by calls of `schedule`. -/
theorem scheduledAs_of_mem (events : List InstallationEvent)
    (hapi : ∀ op, .session op ∈ events → op.writesRows = false) {row : JobRow}
    (hrow : row ∈ (installed events).db.jobs.rows) : ScheduledAs events row := by
  induction events using List.reverseRecOn with
  | nil => cases hrow
  | append_singleton events event ih =>
    -- a row that was there before
    have hbefore : row ∈ (installed events).db.jobs.rows →
        ScheduledAs (events ++ [event]) row := fun hrow =>
      (ih (fun op hop => hapi op (List.mem_append_left _ hop)) hrow).append [event]
    rw [installed_snoc] at hrow
    have hchange := change_step (installed events) event
    generalize (installed events).step event = s' at hchange hrow
    cases hchange with
    | session op hdb hworker htrace =>
      rw [hdb] at hrow
      rcases rows_step (hapi op (by simp)) hrow with
        hold | ⟨session, schedule, command, rfl, hcall, hnew⟩
      · exact hbefore hold
      · exact ⟨events, session, schedule, command, [], rfl, hcall, hnew⟩
    | launched statementTimeout hnone hdb hworker htrace => exact hbefore (hdb ▸ hrow)
    | loaded entry currentTime w hw hdb hworker htrace => exact hbefore (hdb ▸ hrow)
    | worked l w hw hown hjobs hid hhistory hworker htrace => exact hbefore (hjobs ▸ hrow)
    | refused l w r run hw hown hrun hmissing hjobs hid hworker htrace =>
      exact hbefore (hjobs ▸ hrow)
    | exited w hw hdb hworker htrace => exact hbefore (hdb ▸ hrow)
    | absent => exact hbefore hrow
    | running => exact hbefore hrow
    | foreign => exact hbefore hrow

/-- **Jobs run as scheduled.**  If the rows of the table come from `schedule` only, then whatever
    all workers together insert, open and send for a job follows a row that a call of `schedule`
    has stored when it returned the id of the job, with the name of the user, the database and the
    command of that call; and as long as no `TRUNCATE` lets the ids start again, all of it follows
    the same row. -/
theorem runs_asScheduled (events : List InstallationEvent)
    (hapi : ∀ op, .session op ∈ events → op.writesRows = false) :
    (∀ e ∈ (installed events).trace, e.call.isPlain = true ∨
      ∃ row, ScheduledAs events row ∧ row.jobid = e.jobId ∧ row.Grants e.call) ∧
    ((∀ event ∈ events, event.restarts = false) → ∀ k,
      (∀ e ∈ (installed events).trace, e.jobId = k → e.call.isPlain = true) ∨
      ∃ row, ScheduledAs events row ∧ row.jobid = k ∧
        ∀ e ∈ (installed events).trace, e.jobId = k → row.Grants e.call) := by
  have hcalls : ∀ e ∈ (installed events).trace, e.call.isPlain = true ∨
      ∃ row, ScheduledAs events row ∧ row.jobid = e.jobId ∧ row.Grants e.call := by
    intro e he
    obtain ⟨before, l, after, w, rfl, hw, hrecorded⟩ := recorded_of_mem_trace events he
    have hsound := sound_run before w hw
    rcases recorded_cases hsound hrecorded with hplain | ⟨job, hjob, hgrants, -⟩
    · exact Or.inl hplain
    · -- the row was in the table at the last reload
      obtain ⟨row, ⟨start, reload, rest, rfl, -, -, hrow⟩, hid, hcarries⟩ :=
        loaded_readLast before hw hjob
      have hscheduled := scheduledAs_of_mem start
        (fun op hop => hapi op (by simp [hop])) hrow
      refine Or.inr ⟨row, ?_, hid, hgrants row hcarries⟩
      rw [List.append_assoc]
      exact hscheduled.append _
  refine ⟨hcalls, fun hids k => ?_⟩
  by_cases hplain : ∀ e ∈ (installed events).trace, e.jobId = k → e.call.isPlain = true
  · exact Or.inl hplain
  · push Not at hplain
    obtain ⟨e, he, rfl, hhands⟩ := hplain
    obtain ⟨row, hscheduled, hid, -⟩ := (hcalls e he).resolve_left hhands
    refine Or.inr ⟨row, hscheduled, hid, fun e' he' hk => ?_⟩
    rcases hcalls e' he' with hplain' | ⟨row', hscheduled', hid', hgrants'⟩
    · exact grants_of_isPlain hplain' row
    · rw [ScheduledAs.unique hids hscheduled hscheduled' (by rw [hid, hid', hk])]
      exact hgrants'

/-- The run with the sending of its query. -/
def scheduledRun : List InstallationEvent :=
  readyToSend ++ [.work (.manage 1 6000000 0 smoothReplies)]

/-- The theorem at that run. -/
theorem runs_asScheduled_alice :
    ⟨1, 1, 6000000, .sendQuery (some 1) (ascii "SELECT 1") true⟩ ∈ (installed scheduledRun).trace ∧
    ∃ row, ScheduledAs scheduledRun row ∧ row.jobid = 1 ∧
      ∀ e ∈ (installed scheduledRun).trace, e.jobId = 1 → row.Grants e.call := by
  have hapi : ∀ op, .session op ∈ scheduledRun → op.writesRows = false := by
    intro op hop
    simp only [scheduledRun, readyToSend, List.mem_append, List.mem_cons,
      InstallationEvent.session.injEq, reduceCtorEq, List.not_mem_nil, or_false] at hop
    rw [hop]
    rfl
  have hhands : ((installed scheduledRun).trace.any fun e =>
      decide (e.jobId = 1) && !e.call.isPlain) = true := by decide +kernel
  have hids : ∀ event ∈ scheduledRun, event.restarts = false := by decide +kernel
  refine ⟨by decide +kernel,
    ((runs_asScheduled scheduledRun hapi).2 hids 1).resolve_left fun hplain => ?_⟩
  obtain ⟨e, he, hboth⟩ := List.any_eq_true.mp hhands
  rw [Bool.and_eq_true_iff] at hboth
  rw [hplain e he (of_decide_eq_true hboth.1)] at hboth
  exact absurd hboth.2 (by decide)

/-! ### Jobs that are gone -/

/-- The row of the job has been deleted, and its id is not given out again. -/
structure Installation.Gone (k : Int) (s : Installation) : Prop where
  drawn : k ≤ s.db.lastJobId
  deleted : s.db.row k = none

/-- No statement of a session gives the id to a row, or lets the ids start again. -/
def InstallationEvent.Spares (k : Int) : InstallationEvent → Prop
  | .session op => ¬op.Gives k ∧ op.restarts = false
  | _ => True

/-- A job stays gone as long as the rows and the sequence do not change. -/
theorem Installation.Gone.congr {k : Int} {s s' : Installation} (h : s.Gone k)
    (hid : s'.db.lastJobId = s.db.lastJobId) (hjobs : s'.db.jobs = s.db.jobs) : s'.Gone k :=
  ⟨by rw [hid]; exact h.drawn, (row_of_rows (by rw [hjobs]) k).trans h.deleted⟩

/-- A job that is gone stays gone. -/
theorem gone_step {k : Int} {s : Installation} (h : s.Gone k) {event : InstallationEvent}
    (hspares : event.Spares k) : (s.step event).Gone k := by
  have hchange := change_step s event
  generalize s.step event = s' at hchange
  cases hchange with
  | session op hdb hworker htrace =>
    refine ⟨?_, ?_⟩
    · rw [hdb]
      exact le_trans h.drawn (lastJobId_step s.db hspares.2)
    · rw [hdb, row_step hspares.1 h.drawn (Or.inr h.deleted)]
      exact h.deleted
  | launched statementTimeout hnone hdb => exact h.congr (by rw [hdb]) (by rw [hdb])
  | loaded entry currentTime w hw hdb => exact h.congr (by rw [hdb]) (by rw [hdb])
  | worked l w hw hown hjobs hid => exact h.congr hid hjobs
  | refused l w r run hw hown hrun hmissing hjobs hid => exact h.congr hid hjobs
  | exited w hw hdb => exact h.congr (by rw [hdb]) (by rw [hdb])
  | absent => exact h
  | running => exact h
  | foreign => exact h

/-- The worker has not loaded the job. -/
def Installation.Forgotten (k : Int) (s : Installation) : Prop :=
  ∀ w, s.worker = some w → getCronJob w.jobs k = none

/-- A reload does not find a job whose row is gone. -/
theorem loaded_of_gone {k : Int} {s : Installation} (h : s.Gone k) :
    getCronJob (loadJobsList false true s.db.jobs) k = none := by
  by_contra hsome
  obtain ⟨job, hjob⟩ := Option.ne_none_iff_exists'.mp hsome
  obtain ⟨row, hrow, hid, -⟩ := (lookup_loadJobsList _ k job).mp hjob
  refine Database.row_eq_none.mp h.deleted ?_
  rw [← hid]
  exact List.mem_map_of_mem hrow

/-- A job that is gone and not loaded is not loaded again. -/
theorem forgotten_step {k : Int} {s : Installation} (hgone : s.Gone k) (h : s.Forgotten k)
    (event : InstallationEvent) : (s.step event).Forgotten k := by
  have hchange := change_step s event
  generalize s.step event = s' at hchange
  intro w' hw'
  cases hchange with
  | session op hdb hworker htrace =>
    rw [hworker] at hw'
    obtain ⟨w, hw, rfl⟩ := Option.map_eq_some_iff.mp hw'
    exact h w hw
  | launched statementTimeout hnone hdb hworker htrace =>
    obtain rfl := Option.some.inj (hworker.symm.trans hw')
    rfl
  | loaded entry currentTime w hw hdb hworker htrace =>
    obtain rfl := Option.some.inj (hworker.symm.trans hw')
    -- a reload finds no row of the job
    exact loaded_of_gone hgone
  | worked l w hw hown hjobs hid hhistory hworker htrace =>
    obtain rfl := Option.some.inj (hworker.symm.trans hw')
    -- other steps load nothing
    rcases jobs_step w l with hsame | ⟨source, currentTime, rfl, -⟩
    · rw [hsame]
      exact h w hw
    · cases hown
  | refused l w r run hw hown hrun hmissing hjobs hid hworker htrace =>
    rw [hworker] at hw'
    cases hw'
  | exited w hw hdb hworker htrace =>
    rw [hworker] at hw'
    cases hw'
  | absent => exact h w' hw'
  | running => exact h w' hw'
  | foreign => exact h w' hw'

/-- What the calls of an event say of a job whose row is gone. -/
theorem trace_gone {events : List InstallationEvent} {k : Int} (hgone : (installed events).Gone k)
    (event : InstallationEvent) :
    ∃ entries, ((installed events).step event).trace = (installed events).trace ++ entries ∧
      ∀ e ∈ entries, e.jobId = k → e.call.isPlain = true ∨
        (¬(installed events).Forgotten k ∧
          ∃ conn command sent, e.call = .sendQuery conn command sent) := by
  have hchange := change_step (installed events) event
  generalize hs' : (installed events).step event = s' at hchange
  have hnone : s'.trace = (installed events).trace →
      ∃ entries, s'.trace = (installed events).trace ++ entries ∧
        ∀ e ∈ entries, e.jobId = k → e.call.isPlain = true ∨
          (¬(installed events).Forgotten k ∧
            ∃ conn command sent, e.call = .sendQuery conn command sent) := fun htrace =>
    ⟨[], by rw [htrace, List.append_nil], by simp⟩
  cases hchange with
  | session op hdb hworker htrace => exact hnone htrace
  | launched statementTimeout hnot hdb hworker htrace => exact hnone htrace
  | loaded entry currentTime w hw hdb hworker htrace => exact hnone htrace
  | worked l w hw hown hjobs hid hhistory hworker htrace =>
    have hsound := sound_run events w hw
    refine ⟨w.recorded l, htrace, fun e he hk => ?_⟩
    rcases recorded_cases hsound he with hplain | ⟨job, hjob, -, hstarts | hsends⟩
    · exact Or.inl hplain
    · -- the row of the run would need its job
      exfalso
      rw [hk] at hstarts
      obtain ⟨r, run, hrun, hrunJob⟩ := row_of_startsJob hsound hstarts
      have hmem := s'.db.referenced r run (by rw [hhistory]; exact hrun)
      rw [hrunJob, hjobs] at hmem
      exact Database.row_eq_none.mp hgone.deleted hmem
    · refine Or.inr ⟨fun hforgotten => ?_, hsends⟩
      rw [hk, hforgotten w hw] at hjob
      cases hjob
  | refused l w r run hw hown hrun hmissing hjobs hid hworker htrace =>
    exact hnone htrace
  | exited w hw hdb hworker htrace => exact hnone htrace
  | absent => exact hnone rfl
  | running => exact hnone rfl
  | foreign => exact hnone rfl

/-- The calls of a run of events say no more of such a job. -/
theorem trace_run_gone (later : List InstallationEvent) {events : List InstallationEvent} {k : Int}
    (hgone : (installed events).Gone k) (hspares : ∀ event ∈ later, event.Spares k) :
    (installed (events ++ later)).Gone k ∧
      ∃ entries, (installed (events ++ later)).trace = (installed events).trace ++ entries ∧
        ∀ e ∈ entries, e.jobId = k → e.call.isPlain = true ∨
          (¬(installed events).Forgotten k ∧
            ∃ conn command sent, e.call = .sendQuery conn command sent) := by
  induction later generalizing events with
  | nil =>
    rw [List.append_nil]
    exact ⟨hgone, [], (List.append_nil _).symm, by simp⟩
  | cons event later ih =>
    -- by induction on the events: the job is gone before each
    have hnext : (installed (events ++ [event])).Gone k := by
      rw [installed_snoc]
      exact gone_step hgone (hspares event List.mem_cons_self)
    obtain ⟨hgone', more, hmore, hmoreCalls⟩ :=
      ih hnext fun e he => hspares e (List.mem_cons_of_mem _ he)
    obtain ⟨entries, hentries, hcalls⟩ := trace_gone hgone event
    rw [List.append_assoc, List.singleton_append] at hgone' hmore
    refine ⟨hgone', entries ++ more, ?_, fun e he hk => ?_⟩
    · rw [hmore, installed_snoc, hentries, List.append_assoc]
    · rcases List.mem_append.mp he with he | he
      · exact hcalls e he hk
      · rcases hmoreCalls e he hk with hplain | ⟨hremembered, hsends⟩
        · exact Or.inl hplain
        · refine Or.inr ⟨fun hforgotten => hremembered ?_, hsends⟩
          rw [installed_snoc]
          exact forgotten_step hgone hforgotten event

/-- **A job that is gone stays dead.**  Once the row of a job has been deleted, and until a session
    gives its id to a row by hand or lets the ids start again with a `TRUNCATE`: there is no run of
    it in the history, and no worker inserts one or opens a connection for it; a query of it is
    sent only on a connection that was open before, and after the next reload, or the end of the
    worker, not even that. -/
theorem unscheduled_stays_dead (events later : List InstallationEvent) (k : Int)
    (hdeleted : (installed events).db.row k = none) (hdrawn : k ≤ (installed events).db.lastJobId)
    (hspares : ∀ event ∈ later, event.Spares k) :
    (installed (events ++ later)).db.row k = none ∧
    (∀ r run, (installed (events ++ later)).db.history.runs.lookup r = some run →
      run.jobid ≠ k) ∧
    (∃ entries, (installed (events ++ later)).trace = (installed events).trace ++ entries ∧
      ∀ e ∈ entries, e.jobId = k →
        e.call.isPlain = true ∨ ∃ conn command sent, e.call = .sendQuery conn command sent) ∧
    ∀ before event after, later = before ++ event :: after →
      event.isReload = true ∨ event = .exit →
      ∃ entries, (installed (events ++ later)).trace =
          (installed (events ++ (before ++ [event]))).trace ++ entries ∧
        ∀ e ∈ entries, e.jobId = k → e.call.isPlain = true := by
  have hgone : (installed events).Gone k := ⟨hdrawn, hdeleted⟩
  obtain ⟨hgone', entries, hentries, hcalls⟩ := trace_run_gone later hgone hspares
  refine ⟨hgone'.deleted, fun r run hrun hk => ?_, ⟨entries, hentries, fun e he hk => ?_⟩, ?_⟩
  · -- the history refers to rows that are there
    refine Database.row_eq_none.mp hgone'.deleted ?_
    rw [← hk]
    exact (installed (events ++ later)).db.referenced r run hrun
  · exact (hcalls e he hk).imp_right And.right
  · rintro before event after rfl hevent
    obtain ⟨hgoneBefore, -⟩ := trace_run_gone before hgone fun e he =>
      hspares e (List.mem_append_left _ he)
    -- a reload or the end of the worker forgets the job
    have hforgotten : (installed (events ++ (before ++ [event]))).Forgotten k := by
      rw [← List.append_assoc, installed_snoc]
      have hchange := change_step (installed (events ++ before)) event
      generalize (installed (events ++ before)).step event = s' at hchange
      intro w' hw'
      cases hchange with
      | loaded entry currentTime w hw hdb hworker htrace =>
        obtain rfl := Option.some.inj (hworker.symm.trans hw')
        exact loaded_of_gone hgoneBefore
      | exited w hw hdb hworker htrace =>
        rw [hworker] at hw'
        cases hw'
      | absent _ hnone =>
        rw [hw'] at hnone
        cases hnone
      | _ => simp [InstallationEvent.isReload] at hevent
    have hgoneThen : (installed (events ++ (before ++ [event]))).Gone k := by
      rw [← List.append_assoc, installed_snoc]
      exact gone_step hgoneBefore (hspares event (by simp))
    obtain ⟨-, rest, hrest, hrestCalls⟩ := trace_run_gone after hgoneThen fun e he =>
      hspares e (by simp [he])
    -- from then on no query can follow
    have hall : events ++ (before ++ [event]) ++ after = events ++ (before ++ event :: after) := by
      simp
    rw [hall] at hrest
    exact ⟨rest, hrest, fun e he hk =>
      (hrestCalls e he hk).resolve_right fun hsends => hsends.1 hforgotten⟩

/-- The theorem at a job that is unscheduled when its run is about to start. -/
theorem unscheduled_stays_dead_started :
    ∃ entries, (installed (unscheduledAtStart ++ [.work (.manage 1 6000000 0 smoothReplies)])).trace
        = (installed unscheduledAtStart).trace ++ entries ∧
      ∀ e ∈ entries, e.jobId = 1 →
        e.call.isPlain = true ∨ ∃ conn command sent, e.call = .sendQuery conn command sent :=
  (unscheduled_stays_dead unscheduledAtStart [.work (.manage 1 6000000 0 smoothReplies)] 1
    (by decide +kernel) (by decide +kernel) (by simp [InstallationEvent.Spares])).2.2.1

end NedoCron
