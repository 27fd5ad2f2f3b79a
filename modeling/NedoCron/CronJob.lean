import NedoCron.CronParser
import NedoCron.Lib.Table

namespace NedoCron

/-!
# nedo_cron — loaded jobs (`cron_job.c`)

The rows of `nedo_cron.jobs` and the table of jobs the worker builds from them.  A row whose
schedule does not parse is skipped with a warning; every other row becomes a `CronJob` under
its `jobid`.
-/

/-- The columns of a row of `nedo_cron.jobs`; none of them may be null. -/
structure JobRow where
  jobid : Int
  schedule : CString
  command : CString
  nodename : CString
  nodeport : Int
  database : CString
  username : CString
  deriving DecidableEq

/-- The contents of `nedo_cron.jobs` as a scan returns them; `jobid` is the primary key. -/
structure JobsTable where
  rows : List JobRow
  primaryKey : (rows.map JobRow.jobid).Nodup

/-- `CronJob`. -/
structure CronJob where
  jobId : Int
  scheduleText : CString
  schedule : CronSchedule
  command : CString
  nodeName : CString
  nodePort : Int
  database : CString
  userName : CString
  deriving DecidableEq

/-- The job a row stands for, unless its schedule is rejected. -/
def JobRow.toJob (row : JobRow) : Option CronJob :=
  (parseWithError row.schedule (some ⟨[], [], 0, 0⟩)).1.map fun schedule =>
    { jobId := row.jobid
      scheduleText := row.schedule
      schedule := schedule
      command := row.command
      nodeName := row.nodename
      nodePort := row.nodeport
      database := row.database
      userName := row.username }

/-- `TupleToJob`: enter the job of a row into the job table. -/
def tupleToJob (jobs : Table Int CronJob) (row : JobRow) : Table Int CronJob :=
  match row.toJob with
  | none => jobs
  | some job => jobs.insert job.jobId job

/-- `getCronJob`. -/
def getCronJob (jobs : Table Int CronJob) (jobId : Int) : Option CronJob := jobs.lookup jobId

/-- `LoadJobsList`, which fills the emptied job table: nothing is read during recovery or
    while the extension does not exist. -/
def loadJobsList (recoveryInProgress cronLoaded : Bool) (table : JobsTable) : Table Int CronJob :=
  if recoveryInProgress || !cronLoaded then ∅ else table.rows.foldl tupleToJob ∅

/-- A row becomes a job with its id. -/
theorem JobRow.toJob_jobId {row : JobRow} {job : CronJob} (h : row.toJob = some job) :
    job.jobId = row.jobid := by
  unfold JobRow.toJob at h
  obtain ⟨schedule, -, rfl⟩ := Option.map_eq_some_iff.mp h
  rfl

/-- Entering a row changes the table at the id of the row only. -/
theorem lookup_tupleToJob (jobs : Table Int CronJob) (row : JobRow) (k : Int) :
    (tupleToJob jobs row).lookup k =
      if k = row.jobid then row.toJob.or (jobs.lookup k) else jobs.lookup k := by
  unfold tupleToJob
  split
  · rename_i hjob
    rw [hjob]
    simp
  · rename_i job hjob
    rw [hjob, JobRow.toJob_jobId hjob]
    by_cases hk : k = row.jobid
    · subst hk
      rw [if_pos rfl, AList.lookup_insert]
      rfl
    · rw [if_neg hk, AList.lookup_insert_ne hk]

/-- **The loaded jobs are the rows whose schedule parses.** -/
theorem lookup_loadJobsList (table : JobsTable) (k : Int) (job : CronJob) :
    (loadJobsList false true table).lookup k = some job ↔
      ∃ row ∈ table.rows, row.jobid = k ∧ row.toJob = some job := by
  have hrows : ∀ (rows : List JobRow) (jobs : Table Int CronJob),
      (rows.map JobRow.jobid).Nodup → (∀ row ∈ rows, jobs.lookup row.jobid = none) →
      ((rows.foldl tupleToJob jobs).lookup k = some job ↔
        jobs.lookup k = some job ∨ ∃ row ∈ rows, row.jobid = k ∧ row.toJob = some job) := by
    intro rows
    induction rows with
    | nil => simp
    | cons row rows ih =>
      intro jobs hkey hfree
      simp only [List.map_cons, List.nodup_cons] at hkey
      have hself : jobs.lookup row.jobid = none := hfree row List.mem_cons_self
      have hnext : ∀ row' ∈ rows, (tupleToJob jobs row).lookup row'.jobid = none := by
        intro row' hrow'
        have hne : row'.jobid ≠ row.jobid := fun heq =>
          hkey.1 (heq ▸ List.mem_map_of_mem hrow')
        rw [lookup_tupleToJob, if_neg hne]
        exact hfree row' (List.mem_cons_of_mem _ hrow')
      rw [List.foldl_cons, ih _ hkey.2 hnext, lookup_tupleToJob, List.exists_mem_cons_iff]
      -- the head row is found now or never: by the primary key no later row has its id
      by_cases hk : k = row.jobid
      · subst hk
        rw [if_pos rfl, hself, Option.or_none]
        simp only [true_and, reduceCtorEq, false_or]
      · rw [if_neg hk]
        have hk' : row.jobid ≠ k := fun heq => hk heq.symm
        simp only [hk', false_and, false_or]
  show (table.rows.foldl tupleToJob ∅).lookup k = some job ↔ _
  rw [hrows table.rows ∅ table.primaryKey fun row _ => AList.lookup_empty row.jobid]
  simp

/-- **A loaded job is found under its own id.** -/
theorem loadJobsList_keyed {recoveryInProgress cronLoaded : Bool} {table : JobsTable} {k : Int}
    {job : CronJob} (h : (loadJobsList recoveryInProgress cronLoaded table).lookup k = some job) :
    job.jobId = k := by
  -- by induction on the rows: a new entry is under the id of its row
  have hrows : ∀ (rows : List JobRow) (jobs : Table Int CronJob),
      (∀ k job, jobs.lookup k = some job → job.jobId = k) →
      ∀ k job, (rows.foldl tupleToJob jobs).lookup k = some job → job.jobId = k := by
    intro rows
    induction rows with
    | nil => exact fun jobs hjobs => hjobs
    | cons row rows ih =>
      intro jobs hjobs
      apply ih
      intro k job hjob
      rw [lookup_tupleToJob] at hjob
      by_cases hk : k = row.jobid
      · rw [if_pos hk] at hjob
        rcases Option.or_eq_some_iff.mp hjob with hrow | ⟨-, hold⟩
        · rw [JobRow.toJob_jobId hrow, hk]
        · exact hjobs k job hold
      · rw [if_neg hk] at hjob
        exact hjobs k job hjob
  unfold loadJobsList at h
  split at h
  · exact absurd h (by simp)
  · exact hrows table.rows ∅ (by simp) k job h

end NedoCron
