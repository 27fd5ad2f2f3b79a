import NedoCron.OneVersion
import NedoCron.Lib.Mirror

namespace NedoCron

/-!
# nedo_cron — invalidations of the jobs table

The worker keeps the jobs in its memory and is told of a commit that changes `nedo_cron.jobs`
by an invalidation, on which `CronJobRelcacheCallback` clears `CronJobCacheValid`.  Invalidations
also arrive inside `LoadJobsList`, whose scan reads the rows that were committed when it was
begun, and `ReloadCronJobs` sets the flag at its end.

A `Cluster` is the worker with the committed table and the invalidations under way, while the
extension exists and the callback is registered.  To the worker's job table it is a
`Mirror.State`.

* `mirror_step` — every event of a cluster is a run of events of its mirror;
* `upToDate_of_timely` — no invalidation is lost unless one of a newer commit arrives between
  the scan of a reload and its end.
-/

/-! ### The worker and its database -/

/-- How far the worker is with a reload. -/
inductive ReloadPhase where
  /-- between two reloads -/
  | between
  /-- `ReloadCronJobs` has been called -/
  | called (currentTime : Int)
  /-- `systable_beginscan` has taken its snapshot, after so many commits -/
  | scanning (currentTime : Int) (table : JobsTable) (commits : Nat)

/-- The worker, the committed rows of `nedo_cron.jobs`, and the commits, numbered from 1, whose
    invalidations have not been delivered. -/
structure Cluster where
  worker : World
  phase : ReloadPhase
  table : JobsTable
  commits : Nat
  undelivered : List Nat

/-- A worker that has just been started. -/
def Cluster.launch (statementTimeout : StatementTimeout) (history : History) (table : JobsTable) :
    Cluster where
  worker := World.launch statementTimeout history
  phase := .between
  table := table
  commits := 0
  undelivered := []

inductive ClusterEvent where
  /-- another session commits a change of `nedo_cron.jobs` -/
  | commit (table : JobsTable)
  /-- the invalidation of a commit is delivered -/
  | deliver (commit : Nat)
  /-- the reload decision of the loop -/
  | decideReload (currentTime : Int)
  /-- `systable_beginscan` in `LoadJobsList` -/
  | beginScan
  /-- the rest of `ReloadCronJobs` -/
  | finishReload (entry : Int → CronTask)
  /-- another step of the worker -/
  | work (l : Label)

/-- Invalidations and reloads have events of their own. -/
def Label.isReload : Label → Bool
  | .invalidate => true
  | .reload _ _ => true
  | _ => false

/-- What a scan of the committed rows gives a reload. -/
def scanSource (table : JobsTable) (entry : Int → CronTask) : ReloadSource where
  recoveryInProgress := false
  cronLoaded := true
  table := table
  entry := entry

/-- One event.  While it reloads, the worker does nothing else. -/
def Cluster.step (c : Cluster) : ClusterEvent → Cluster
  | .commit table =>
    { c with
      table := table
      commits := c.commits + 1
      undelivered := (c.commits + 1) :: c.undelivered }
  | .deliver commit =>
    if commit ∈ c.undelivered then
      { c with
        worker := c.worker.step .invalidate
        undelivered := c.undelivered.filter (· ≠ commit) }
    else c
  | .decideReload currentTime =>
    match c.phase with
    | .between =>
      if c.worker.mustReload currentTime then { c with phase := .called currentTime } else c
    | _ => c
  | .beginScan =>
    match c.phase with
    | .called currentTime => { c with phase := .scanning currentTime c.table c.commits }
    | _ => c
  | .finishReload entry =>
    match c.phase with
    | .scanning currentTime table _ =>
      { c with
        -- this sets the flag, whatever was delivered since the scan began
        worker := c.worker.step (.reload (scanSource table entry) currentTime)
        phase := .between }
    | _ => c
  | .work l =>
    match c.phase with
    | .between => if l.isReload then c else { c with worker := c.worker.step l }
    | _ => c

/-- Between reloads, with the flag set and no invalidation under way, the job table holds the
    committed rows whose schedule parses. -/
def Cluster.UpToDate (c : Cluster) : Prop :=
  c.phase = .between → c.worker.cacheValid = true → c.undelivered = [] →
    ∀ k job, c.worker.jobs.lookup k = some job ↔
      ∃ row ∈ c.table.rows, row.jobid = k ∧ row.toJob = some job

/-- An invalidation that arrives during a scan is of a commit that the scan sees. -/
def Cluster.Timely (c : Cluster) : ClusterEvent → Prop
  | .deliver commit => ∀ currentTime table commits,
    c.phase = .scanning currentTime table commits → commit ≤ commits
  | _ => True

/-! ### The mirror -/

/-- What a scan in progress has read. -/
def ReloadPhase.reading : ReloadPhase → Option (JobsTable × Nat)
  | .scanning _ table commits => some (table, commits)
  | _ => none

/-- The job table as a copy of the committed rows. -/
def Cluster.mirror (c : Cluster) : Mirror.State JobsTable (Table Int CronJob) where
  source := c.table
  changes := c.commits
  undelivered := c.undelivered
  valid := c.worker.cacheValid
  copy := c.worker.jobs
  reading := c.phase.reading

/-- What an event of the cluster is to the mirror. -/
def Cluster.mirrorEvents (c : Cluster) : ClusterEvent → List (Mirror.Event JobsTable)
  | .commit table => [.change table]
  | .deliver commit => [.deliver commit]
  | .decideReload _ => []
  | .beginScan => match c.phase with
    | .called _ => [.read]
    | _ => []
  | .finishReload _ => [.load]
  | .work l => match c.phase, l with
    | .between, .sighup _ => [.discard]
    | _, _ => []

/-- Steps of tasks and waits leave the jobs and the flag alone. -/
theorem cache_work (w : World) {l : Label} (h : l.isReload = false)
    (hsighup : ∀ statementTimeout, l ≠ .sighup statementTimeout) :
    (w.step l).jobs = w.jobs ∧ (w.step l).cacheValid = w.cacheValid := by
  cases l with
  | invalidate => cases h
  | reload source currentTime => cases h
  | sighup statementTimeout => exact absurd rfl (hsighup statementTimeout)
  | startPending currentTime => exact ⟨rfl, rfl⟩
  | wait io =>
    show (w.waitForEvent io).jobs = w.jobs ∧ (w.waitForEvent io).cacheValid = w.cacheValid
    unfold World.waitForEvent
    dsimp only
    split <;> exact ⟨rfl, rfl⟩
  | manage jobId currentTime gap io =>
    show (w.manage jobId currentTime gap io).jobs = w.jobs ∧
      (w.manage jobId currentTime gap io).cacheValid = w.cacheValid
    cases hold : w.tasks.lookup jobId with
    | none => rw [manage_none hold]; exact ⟨rfl, rfl⟩
    | some task => rw [manage_eq hold]; exact ⟨rfl, rfl⟩
  | deleteRuns gone => exact ⟨rfl, rfl⟩

/-- **A cluster is a mirror to its job table.** -/
theorem mirror_step (c : Cluster) (e : ClusterEvent) :
    (c.step e).mirror =
      Machine.run (Mirror.State.step (loadJobsList false true)) c.mirror (c.mirrorEvents e) := by
  obtain ⟨worker, phase, table, commits, undelivered⟩ := c
  cases e with
  | commit table' => rfl
  | deliver commit =>
    by_cases hmem : commit ∈ undelivered
    · calc Cluster.mirror _ = _ := congrArg Cluster.mirror (if_pos hmem)
        _ = _ := (if_pos hmem).symm
    · calc Cluster.mirror _ = _ := congrArg Cluster.mirror (if_neg hmem)
        _ = _ := (if_neg hmem).symm
  | decideReload currentTime =>
    cases phase with
    | between =>
      show (if worker.mustReload currentTime then _ else _ : Cluster).mirror = _
      split <;> rfl
    | called time => rfl
    | scanning time read seen => rfl
  | beginScan => cases phase <;> rfl
  | finishReload entry => cases phase <;> rfl
  | work l =>
    cases phase with
    | between =>
      show (if l.isReload then _ else _ : Cluster).mirror = _
      cases hreload : l.isReload with
      | true =>
        rw [if_pos rfl]
        cases l <;> first | rfl | cases hreload
      | false =>
        rw [if_neg Bool.false_ne_true]
        by_cases hsighup : ∃ statementTimeout, l = .sighup statementTimeout
        · obtain ⟨statementTimeout, rfl⟩ := hsighup
          rfl
        · -- the job table and the flag stay, and nothing happens to the mirror
          have hkept := cache_work worker hreload fun st heq => hsighup ⟨st, heq⟩
          have hnone : Cluster.mirrorEvents ⟨worker, .between, table, commits, undelivered⟩
              (.work l) = [] := by
            cases l <;> first | rfl | exact absurd ⟨_, rfl⟩ hsighup
          rw [hnone]
          show Cluster.mirror ⟨worker.step l, .between, table, commits, undelivered⟩ = _
          unfold Cluster.mirror
          rw [hkept.1, hkept.2]
          rfl
    | called time => rfl
    | scanning time read seen => rfl

/-- The guard of the cluster is the guard of its mirror. -/
theorem timely_mirror {c : Cluster} {e : ClusterEvent} (h : c.Timely e) :
    Machine.Guarded (Mirror.State.step (loadJobsList false true)) Mirror.State.Timely c.mirror
      (c.mirrorEvents e) := by
  obtain ⟨worker, phase, table, commits, undelivered⟩ := c
  cases e with
  | commit table' => exact ⟨trivial, trivial⟩
  | deliver commit =>
    refine ⟨fun read seen hreading => ?_, trivial⟩
    cases phase with
    | between => cases hreading
    | called time => cases hreading
    | scanning time read' seen' =>
      obtain ⟨rfl, rfl⟩ : read' = read ∧ seen' = seen := by
        simpa [Cluster.mirror, ReloadPhase.reading] using hreading
      exact h time read' seen' rfl
  | decideReload currentTime => exact trivial
  | beginScan =>
    cases phase with
    | called time => exact ⟨trivial, trivial⟩
    | between => exact trivial
    | scanning time read seen => exact trivial
  | finishReload entry => exact ⟨trivial, trivial⟩
  | work l =>
    cases phase with
    | between => cases l <;> first | exact trivial | exact ⟨trivial, trivial⟩
    | called time => exact trivial
    | scanning time read seen => exact trivial

/-! ### Invalidations that are not lost -/

/-- **No invalidation is lost** in a run in which none of a newer commit arrives during a scan:
    in every state of such a run the job table is up to date. -/
theorem upToDate_of_timely (statementTimeout : StatementTimeout) (history : History)
    (table : JobsTable) (es : List ClusterEvent)
    (h : Machine.Guarded Cluster.step Cluster.Timely
      (Cluster.launch statementTimeout history table) es) :
    (Machine.run Cluster.step (Cluster.launch statementTimeout history table) es).UpToDate := by
  have hlaunch :
      (Cluster.launch statementTimeout history table).mirror.Inv (loadJobsList false true) :=
    ⟨fun a n hread => absurd hread (by simp [Cluster.launch, Cluster.mirror, ReloadPhase.reading]),
      fun _ hvalid => absurd hvalid Bool.false_ne_true⟩
  -- each event is some steps of the mirror, whose rule carries the invariant along
  have hinv := Machine.guarded_induction
    (P := fun c => c.mirror.Inv (loadJobsList false true))
    (fun c e ht hc => by
      rw [mirror_step]
      exact Machine.guarded_induction (Mirror.inv_step _) (timely_mirror ht) hc) h hlaunch
  generalize Machine.run Cluster.step (Cluster.launch statementTimeout history table) es = c
    at hinv
  intro hphase hvalid hall k job
  have hreading : c.mirror.reading = none := by
    show c.phase.reading = none
    rw [hphase]
    rfl
  have hcurrent : c.worker.jobs = loadJobsList false true c.table :=
    hinv.current hreading hvalid hall
  rw [hcurrent]
  exact lookup_loadJobsList c.table k job

/-! ### An invalidation that is lost -/

/-- A table without rows. -/
def noRows : JobsTable := ⟨[], List.nodup_nil⟩

/-- A table with one row. -/
def oneJob : JobsTable := (oneRow (secondsRow (ascii "alice") (ascii "SELECT 1"))).table

/-- A commit during the first reload, whose invalidation is delivered when the next iteration
    begins. -/
def timelyCommit : List ClusterEvent :=
  [.decideReload 1000000, .beginScan, .commit oneJob, .finishReload fun _ => clearedEntry,
    .deliver 1, .decideReload 2000000, .beginScan, .finishReload fun _ => clearedEntry]

/-- The theorem at a commit whose invalidation leads to a second reload. -/
theorem upToDate_of_timely_commit :
    (Machine.run Cluster.step (Cluster.launch defaultTimeout emptyHistory noRows)
      timelyCommit).UpToDate := by
  apply upToDate_of_timely
  refine ⟨trivial, trivial, trivial, trivial, ?_, trivial, trivial, trivial, trivial⟩
  intro time table commits hphase
  change ReloadPhase.between = _ at hphase
  cases hphase

/-- The same commit with its invalidation delivered before the reload ends: the flag is set
    again, and the row is missing. -/
theorem not_upToDate :
    ¬∀ statementTimeout history table es,
      (Machine.run Cluster.step (Cluster.launch statementTimeout history table) es).UpToDate := by
  intro hall
  have hrow := (hall defaultTimeout emptyHistory noRows
    [.decideReload 1000000, .beginScan, .commit oneJob, .deliver 1,
      .finishReload fun _ => clearedEntry] rfl rfl rfl 7
    (secondsJob (ascii "alice") (ascii "SELECT 1"))).mpr
    ⟨secondsRow (ascii "alice") (ascii "SELECT 1"), List.mem_singleton_self _, rfl,
      by decide +kernel⟩
  exact absurd hrow (by decide +kernel)

end NedoCron
