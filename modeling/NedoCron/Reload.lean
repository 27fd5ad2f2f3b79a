import NedoCron.Invariant

namespace NedoCron

/-!
# nedo_cron — what a reload changes, and what it leaves alone

`ReloadCronJobs` fills a new job table from the rows and marks the tasks, which live on.

* `JobRow.Carries` — the job of a row, column by column;
* `keys_loadJobsList` — one job for every row whose schedule parses;
* `loadJobsList_parsable` — the other rows have no effect;
* `reload_synchronises` — the two tables after a reload, from any state of the worker.
-/

/-! ### The job table -/

/-- The job holds the columns of the row and its parsed schedule; the error record that
    `TupleToJob` passes is not initialised, and does not matter. -/
structure JobRow.Carries (row : JobRow) (job : CronJob) : Prop where
  jobId : job.jobId = row.jobid
  scheduleText : job.scheduleText = row.schedule
  schedule : ∀ error, (parseWithError row.schedule (some error)).1 = some job.schedule
  command : job.command = row.command
  nodeName : job.nodeName = row.nodename
  nodePort : job.nodePort = row.nodeport
  database : job.database = row.database
  userName : job.userName = row.username

/-- The schedule of the row parses. -/
def JobRow.Parses (row : JobRow) : Prop :=
  (parseWithError row.schedule (some ⟨[], [], 0, 0⟩)).1.isSome = true

instance (row : JobRow) : Decidable row.Parses := inferInstanceAs (Decidable (_ = true))

/-- `TupleToJob` makes the job that carries the columns of the row. -/
theorem JobRow.toJob_eq_some {row : JobRow} {job : CronJob} :
    row.toJob = some job ↔ row.Carries job := by
  unfold JobRow.toJob
  constructor
  · intro h
    obtain ⟨schedule, hparse, rfl⟩ := Option.map_eq_some_iff.mp h
    exact ⟨rfl, rfl, fun _ => hparse, rfl, rfl, rfl, rfl, rfl⟩
  · rintro ⟨hjobId, htext, hschedule, hcommand, hnodeName, hnodePort, hdatabase, huserName⟩
    rw [hschedule ⟨[], [], 0, 0⟩, Option.map_some, Option.some.injEq]
    cases job
    simp_all

/-- A row parses if it becomes a job. -/
theorem JobRow.parses_iff {row : JobRow} : row.Parses ↔ row.toJob.isSome = true := by
  unfold JobRow.Parses JobRow.toJob
  rw [Option.isSome_map]

/-- A row that does not parse leaves the job table as it is. -/
theorem tupleToJob_of_not_parses {row : JobRow} (h : ¬row.Parses) (jobs : Table Int CronJob) :
    tupleToJob jobs row = jobs := by
  have hnone : row.toJob = none := by
    rw [JobRow.parses_iff, Option.not_isSome_iff_eq_none] at h
    exact h
  rw [tupleToJob, hnone]

/-- **Rows that do not parse** have no effect, wherever they stand. -/
theorem loadJobsList_parsable (recoveryInProgress cronLoaded : Bool) {table table' : JobsTable}
    (h : table'.rows = table.rows.filter fun row => row.Parses) :
    loadJobsList recoveryInProgress cronLoaded table' =
      loadJobsList recoveryInProgress cronLoaded table := by
  have hrows : ∀ (rows : List JobRow) (jobs : Table Int CronJob),
      (rows.filter fun row => row.Parses).foldl tupleToJob jobs = rows.foldl tupleToJob jobs := by
    intro rows
    induction rows with
    | nil => exact fun _ => rfl
    | cons row rows ih =>
      intro jobs
      by_cases hrow : row.Parses
      · rw [List.filter_cons_of_pos (by simpa using hrow), List.foldl_cons, List.foldl_cons, ih]
      · rw [List.filter_cons_of_neg (by simpa using hrow), List.foldl_cons,
          tupleToJob_of_not_parses hrow, ih]
  unfold loadJobsList
  rw [h, hrows]

/-- **One job for every row whose schedule parses**, and no other. -/
theorem keys_loadJobsList (table : JobsTable) :
    (loadJobsList false true table).keys.Perm
      ((table.rows.filter fun row => row.Parses).map JobRow.jobid) := by
  have hnodup : ((table.rows.filter fun row => row.Parses).map JobRow.jobid).Nodup :=
    table.primaryKey.sublist (List.filter_sublist.map _)
  rw [List.perm_ext_iff_of_nodup (AList.keys_nodup _) hnodup]
  intro k
  rw [← AList.mem_keys, ← AList.lookup_isSome, Option.isSome_iff_exists, List.mem_map]
  constructor
  · rintro ⟨job, hjob⟩
    obtain ⟨row, hrow, hk, htoJob⟩ := (lookup_loadJobsList table k job).mp hjob
    have hparses : row.Parses := JobRow.parses_iff.mpr (by rw [htoJob]; rfl)
    exact ⟨row, List.mem_filter.mpr ⟨hrow, decide_eq_true hparses⟩, hk⟩
  · rintro ⟨row, hrow, hk⟩
    obtain ⟨hmem, hparses⟩ := List.mem_filter.mp hrow
    obtain ⟨job, htoJob⟩ := Option.isSome_iff_exists.mp
      (JobRow.parses_iff.mp (of_decide_eq_true hparses))
    exact ⟨job, (lookup_loadJobsList table k job).mpr ⟨row, hmem, hk, htoJob⟩⟩

/-! ### Both tables -/

/-- **A reload synchronises and frames.**  Outside recovery and with the extension loaded the job
    table holds exactly one job for every row whose schedule parses, with the columns of the row;
    otherwise it is empty.  The tasks are the old ones and one for each loaded job; a task is active
    exactly if its job is loaded, an old task keeps everything else, and a new one is WAITING with
    an empty queue.  A row that does not parse changes nothing. -/
theorem reload_synchronises (w : World) (source : ReloadSource) (currentTime : Int) :
    let w' := w.step (.reload source currentTime)
    (source.recoveryInProgress = false → source.cronLoaded = true →
      w'.jobs.keys.Perm ((source.table.rows.filter fun row => row.Parses).map JobRow.jobid) ∧
      ∀ k job, w'.jobs.lookup k = some job ↔
        ∃ row ∈ source.table.rows, row.jobid = k ∧ row.Carries job) ∧
    (source.recoveryInProgress = true ∨ source.cronLoaded = false → w'.jobs = ∅) ∧
    (∀ k, k ∈ w'.tasks ↔ k ∈ w.tasks ∨ k ∈ w'.jobs) ∧
    (∀ k task', w'.tasks.lookup k = some task' → (task'.isActive = true ↔ k ∈ w'.jobs)) ∧
    (∀ k task, w.tasks.lookup k = some task →
      ∃ isActive, w'.tasks.lookup k = some { task with isActive := isActive }) ∧
    (∀ k task', w.tasks.lookup k = none → w'.tasks.lookup k = some task' →
      task'.jobId = k ∧ task'.state = .waiting ∧ task'.pendingRunCount = 0) ∧
    ∀ table, table.rows = (source.table.rows.filter fun row => row.Parses) →
      w.step (.reload { source with table := table } currentTime) = w' := by
  intro w'
  -- each task after the reload, from which the rest is read off
  have htask : ∀ k, w'.tasks.lookup k = if k ∈ w'.jobs then
      some { (w.tasks.lookup k).getD (initCronTask (source.entry k) k) with isActive := true }
      else (w.tasks.lookup k).map fun task => { task with isActive := false } := by
    intro k
    show (w.reload source currentTime).tasks.lookup k = _
    rw [lookup_reload]
    by_cases hk : k ∈ (w.reload source currentTime).jobs
    · rw [if_pos (AList.mem_keys.mp hk)]
      exact (if_pos hk).symm
    · rw [if_neg fun h => hk (AList.mem_keys.mpr h)]
      exact (if_neg hk).symm
  have hmem : ∀ (tasks : Table Int CronTask) k, k ∈ tasks ↔ (tasks.lookup k).isSome = true :=
    fun tasks k => AList.lookup_isSome.symm
  refine ⟨fun hrecovery hloaded => ?_, fun hempty => ?_, fun k => ?_, fun k task' hlookup => ?_,
    fun k task hlookup => ?_, fun k task' hnone hlookup => ?_, fun table hrows => ?_⟩
  · -- the jobs, and the rows they carry
    have hjobs : w'.jobs = loadJobsList false true source.table := by
      rw [← hrecovery, ← hloaded]
      rfl
    rw [hjobs]
    refine ⟨keys_loadJobsList source.table, fun k job => ?_⟩
    rw [lookup_loadJobsList]
    simp only [JobRow.toJob_eq_some]
  · show loadJobsList source.recoveryInProgress source.cronLoaded source.table = ∅
    unfold loadJobsList
    rcases hempty with h | h <;> simp [h]
  · rw [hmem, hmem, htask]
    by_cases hk : k ∈ w'.jobs
    · simp [hk]
    · simp [hk]
  · rw [htask] at hlookup
    by_cases hk : k ∈ w'.jobs
    · rw [if_pos hk] at hlookup
      obtain rfl := Option.some.inj hlookup
      exact iff_of_true rfl hk
    · rw [if_neg hk] at hlookup
      obtain ⟨task, -, rfl⟩ := Option.map_eq_some_iff.mp hlookup
      exact iff_of_false Bool.false_ne_true hk
  · rw [htask, hlookup]
    by_cases hk : k ∈ w'.jobs
    · exact ⟨true, by rw [if_pos hk, Option.getD_some]⟩
    · exact ⟨false, by rw [if_neg hk, Option.map_some]⟩
  · rw [htask, hnone] at hlookup
    by_cases hk : k ∈ w'.jobs
    · rw [if_pos hk] at hlookup
      obtain rfl := Option.some.inj hlookup
      exact ⟨rfl, rfl, rfl⟩
    · rw [if_neg hk] at hlookup
      exact absurd hlookup (by simp)
  · -- rows that do not parse make no difference
    show w.reload { source with table := table } currentTime = w.reload source currentTime
    unfold World.reload reloadCronJobs
    dsimp only
    rw [loadJobsList_parsable source.recoveryInProgress source.cronLoaded hrows]

end NedoCron
