import NedoCron.OneVersion

namespace NedoCron

/-!
# nedo_cron — workers that are started again

The worker's tasks live in its memory and the rows of its runs in the database, so the end of
a worker leaves the rows of the runs under way as they are.  A `Service` is a sequence of
workers on one history, each of which ends at some point of its loop.

* `earlier_step` — a worker never touches the rows of the workers before it;
* `service_rows` — the open rows of the current worker belong to its tasks in flight, and the
  rows of the workers before it stay as they are.
-/

/-! ### Services -/

/-- The current worker, the history it was started on, and its completed iterations. -/
structure Service where
  worker : World
  origin : History
  iterations : Nat

/-- What happens to a service. -/
inductive ServiceEvent where
  /-- an iteration of the worker's loop is completed -/
  | iterate (input : IterationInput)
  /-- rows of the history are deleted -/
  | deleteRuns (gone : Int → Bool)
  /-- the worker ends, after some steps of an iteration, and a new one is started -/
  | restart (steps : List Label) (statementTimeout : StatementTimeout)

/-- A worker that is started on a given history. -/
def Service.launch (statementTimeout : StatementTimeout) (history : History) : Service where
  worker := World.launch statementTimeout history
  origin := history
  iterations := 0

/-- One event; the service is at a boundary of the worker's loop before and after it. -/
def Service.step (s : Service) : ServiceEvent → Service
  | .iterate input =>
    { s with worker := s.worker.loopIteration input, iterations := s.iterations + 1 }
  | .deleteRuns gone => { s with worker := s.worker.step (.deleteRuns gone) }
  | .restart steps statementTimeout =>
    Service.launch statementTimeout (Machine.run World.step s.worker steps).history

/-- After the first iteration of a worker, no row is open without a task of that worker. -/
def Service.NoOrphans (s : Service) : Prop :=
  0 < s.iterations → ∀ r row, s.worker.history.runs.lookup r = some row →
    row.status.isOpen = true → ∃ k task, s.worker.tasks.lookup k = some task ∧ task.WorksFor r

/-! ### Lifetimes -/

/-- The worker has made some steps since it was started on `origin`. -/
def Lifetime (origin : History) (w : World) : Prop :=
  ∃ statementTimeout, Machine.Reaches World.step (World.launch statementTimeout origin) w

/-- A lifetime begins. -/
theorem lifetime_launch (statementTimeout : StatementTimeout) (history : History) :
    Lifetime history (World.launch statementTimeout history) :=
  ⟨statementTimeout, Machine.Reaches.refl _⟩

/-- It goes on with every run of the worker. -/
theorem Lifetime.reaches {origin : History} {w w' : World} (h : Lifetime origin w)
    (hreach : Machine.Reaches World.step w w') : Lifetime origin w' := by
  obtain ⟨statementTimeout, hstart⟩ := h
  exact ⟨statementTimeout, hstart.trans hreach⟩

/-- What is known of the history holds in a lifetime. -/
theorem Lifetime.historyOk {origin : History} {w : World} (h : Lifetime origin w) :
    HistoryOk origin w := by
  obtain ⟨statementTimeout, ls, rfl⟩ := h
  exact historyOk_run statementTimeout origin ls

/-- A step deletes the row of a run. -/
def Label.deletes (r : Int) : Label → Bool
  | .deleteRuns gone => gone r
  | _ => false

/-- Only a deletion deletes. -/
theorem deletes_of_isDeletion {l : Label} (h : l.isDeletion = false) (r : Int) :
    l.deletes r = false := by
  cases l with
  | deleteRuns gone => cases h
  | invalidate => rfl
  | sighup statementTimeout => rfl
  | reload source currentTime => rfl
  | startPending currentTime => rfl
  | wait io => rfl
  | manage jobId currentTime gap io => rfl

/-- **Rows of earlier workers are left alone**, unless they are deleted. -/
theorem earlier_step {origin : History} {w : World} (h : Lifetime origin w) (l : Label) {r : Int}
    (hr : r ≤ origin.lastRunId) :
    (w.step l).history.runs.lookup r =
      if l.deletes r then none else w.history.runs.lookup r := by
  have hok := h.historyOk
  cases l with
  | invalidate => rfl
  | sighup statementTimeout => rfl
  | reload source currentTime => rfl
  | startPending currentTime => rfl
  | wait io =>
    show (w.waitForEvent io).history.runs.lookup r = w.history.runs.lookup r
    rw [(wait_rest w io).2.2]
  | manage jobId currentTime gap io =>
    show (w.manage jobId currentTime gap io).history.runs.lookup r = w.history.runs.lookup r
    cases hold : w.tasks.lookup jobId with
    | none => rw [manage_none hold]
    | some task =>
      have houtcome := turn_outcome w task currentTime gap io
      rw [manage_eq hold]
      show ((w.turn task currentTime gap io).calls.foldl History.apply w.history).runs.lookup r = _
      rw [lookup_foldl_apply _ w.history fun call hcall => houtcome.runEvents_run hcall]
      refine ite_eq_right_iff.mpr fun hrun => ?_
      -- a turn with calls works for a run of this worker, which is newer than `r`
      have hnext :=
        (h.reaches (Machine.Reaches.single w (.manage jobId currentTime gap io))).historyOk
      rcases turn_run hok.ok hok.filed hold currentTime gap io with
        ⟨hnil, -, -⟩ | ⟨-, -, -, hgiven | ⟨-, howned⟩⟩
      · rw [hnil]; rfl
      · have hheld : (w.manage jobId currentTime gap io).heldRun jobId =
            some (w.turn task currentTime gap io).run := by
          rw [(held_manage hold currentTime gap io jobId).2, if_pos rfl, hgiven]
        have hnew := hnext.rows.started _ (started_of_heldRun hnext.ok hheld)
        omega
      · have hheld : w.heldRun jobId = some (w.turn task currentTime gap io).run := by
          rw [heldRun_of_lookup hold, howned]
        have hnew := hok.rows.started _ (started_of_heldRun hok.ok hheld)
        omega
  | deleteRuns gone =>
    show (Table.keep _ w.history.runs).lookup r = if gone r then none else _
    rw [Table.lookup_keep]
    cases w.history.runs.lookup r <;> cases gone r <;> rfl

/-- The rows of earlier workers after some steps. -/
theorem earlier_run {origin : History} (ls : List Label) {w : World} (h : Lifetime origin w)
    {r : Int} (hr : r ≤ origin.lastRunId) :
    (Machine.run World.step w ls).history.runs.lookup r =
      if ls.any (Label.deletes r) = true then none else w.history.runs.lookup r := by
  induction ls generalizing w with
  | nil => rfl
  | cons l ls ih =>
    rw [Machine.run_cons, ih (h.reaches (Machine.Reaches.single w l)), earlier_step h l hr,
      List.any_cons]
    cases l.deletes r <;> simp

/-! ### Runs of a service -/

/-- The current worker has made some steps since it was started. -/
def Service.Alive (s : Service) : Prop := Lifetime s.origin s.worker

/-- A new worker is in its lifetime. -/
theorem alive_launch (statementTimeout : StatementTimeout) (history : History) :
    (Service.launch statementTimeout history).Alive := lifetime_launch statementTimeout history

/-- Every event keeps this: a worker that ends is replaced by a new one. -/
theorem alive_step (s : Service) (e : ServiceEvent) (h : s.Alive) : (s.step e).Alive := by
  cases e with
  | iterate input => exact Lifetime.reaches h (loopIteration_reaches s.worker input).reaches
  | deleteRuns gone =>
    exact Lifetime.reaches h (Machine.Reaches.single s.worker (Label.deleteRuns gone))
  | restart steps statementTimeout => exact alive_launch statementTimeout _

/-- An event deletes the row of a run. -/
def ServiceEvent.deletes (r : Int) : ServiceEvent → Bool
  | .iterate _ => false
  | .deleteRuns gone => gone r
  | .restart steps _ => steps.any (Label.deletes r)

/-- The rows of earlier workers after an event. -/
theorem earlier_event {s : Service} (h : s.Alive) (e : ServiceEvent) {r : Int}
    (hr : r ≤ s.origin.lastRunId) :
    (s.step e).worker.history.runs.lookup r =
      if e.deletes r then none else s.worker.history.runs.lookup r := by
  cases e with
  | iterate input =>
    -- the worker itself deletes no rows
    obtain ⟨ls, hls, hrun⟩ := loopIteration_reaches s.worker input
    have hkept := earlier_run ls h hr
    rw [hrun, if_neg] at hkept
    · exact hkept
    · intro hany
      obtain ⟨l, hl, hdeletes⟩ := List.any_eq_true.mp hany
      rw [deletes_of_isDeletion (hls l hl)] at hdeletes
      exact absurd hdeletes Bool.false_ne_true
  | deleteRuns gone => exact earlier_step h (.deleteRuns gone) hr
  | restart steps statementTimeout => exact earlier_run steps h hr

/-- A later worker is started on a later history. -/
theorem origin_grows {s : Service} (h : s.Alive) (e : ServiceEvent) :
    s.origin.lastRunId ≤ (s.step e).origin.lastRunId := by
  cases e with
  | iterate input => exact le_refl _
  | deleteRuns gone => exact le_refl _
  | restart steps statementTimeout =>
    exact (Lifetime.reaches h ⟨steps, rfl⟩).historyOk.rows.grows

/-- The rows of earlier workers after any further events. -/
theorem earlier_events (es : List ServiceEvent) {s : Service} (h : s.Alive) {r : Int}
    (hr : r ≤ s.origin.lastRunId) :
    (Machine.run Service.step s es).worker.history.runs.lookup r =
      if es.any (ServiceEvent.deletes r) = true then none
      else s.worker.history.runs.lookup r := by
  induction es generalizing s with
  | nil => rfl
  | cons e es ih =>
    rw [Machine.run_cons, ih (alive_step s e h) (le_trans hr (origin_grows h e)),
      earlier_event h e hr, List.any_cons]
    cases e.deletes r <;> simp

/-- **Rows across workers.** At every boundary of the loop, an open row of a run of the current
    worker belongs to its task in flight with that run.  The rows of the runs of earlier workers,
    also of those under way when their worker ended, stay as they are until they are deleted. -/
theorem service_rows (statementTimeout : StatementTimeout) (history : History)
    (es later : List ServiceEvent) :
    let s := Machine.run Service.step (Service.launch statementTimeout history) es
    (∀ r row, s.origin.lastRunId < r → s.worker.history.runs.lookup r = some row →
      row.status.isOpen = true →
        ∃ task, s.worker.tasks.lookup row.jobid = some task ∧ task.WorksFor r) ∧
    ∀ r, r ≤ s.origin.lastRunId →
      (Machine.run Service.step s later).worker.history.runs.lookup r =
        if later.any (ServiceEvent.deletes r) = true then none
        else s.worker.history.runs.lookup r := by
  intro s
  -- whatever came before, the current worker is in a lifetime of its own
  have halive : s.Alive := Machine.run_induction alive_step es (alive_launch _ _)
  refine ⟨fun r row hnew hrow hstatus => ?_, fun r hr => earlier_events later halive hr⟩
  exact (Lifetime.historyOk halive).open_task hnew hrow hstatus

/-! ### A run that is abandoned -/

/-- An iteration at `currentTime` in which all goes well. -/
def smoothIteration (source : ReloadSource) (currentTime : Int) : IterationInput where
  currentTime := currentTime
  invalidated := false
  sighup := none
  source := source
  wait := readyWait currentTime
  manageTime := currentTime
  gap _ := 0
  replies _ := smoothReplies

/-- The worker ends at the boundary after START, and its successor finishes an iteration. -/
def abandonedRun : List ServiceEvent :=
  let alice := oneRow (secondsRow (ascii "alice") (ascii "SELECT 1"))
  [.iterate (smoothIteration alice 1000000), .iterate (smoothIteration alice 6000000),
    .iterate (smoothIteration alice 6000000), .restart [] defaultTimeout,
    .iterate (smoothIteration alice 7000000)]

/-- The row of the abandoned run is still `starting`, and no task works for it. -/
theorem not_noOrphans :
    ¬∀ statementTimeout history es,
      (Machine.run Service.step (Service.launch statementTimeout history) es).NoOrphans := by
  intro hall
  have hopen : (Machine.run Service.step (Service.launch defaultTimeout emptyHistory)
      abandonedRun).worker.history.runs.lookup 1 =
        some ⟨7, none, ascii "postgres", ascii "alice", .starting, none, 0, none⟩ := by
    decide +kernel
  have hidle : ∀ e ∈ (Machine.run Service.step (Service.launch defaultTimeout emptyHistory)
      abandonedRun).worker.tasks.entries, e.2.runId ≠ 1 := by decide +kernel
  obtain ⟨k, task, hlookup, -, -, hrun⟩ :=
    hall defaultTimeout emptyHistory abandonedRun (by decide +kernel) 1 _ hopen rfl
  exact hidle ⟨k, task⟩ (AList.mem_lookup_iff.mp hlookup) hrun

end NedoCron
