import NedoCron.Conservation
import NedoCron.RunLog
import NedoCron.Lib.SingleServer

namespace NedoCron

/-!
# nedo_cron — the worker as one server for each job

What a task is for: it serves the due runs of its job one at a time.  Seen from one job, the worker
is a server of `Lib/SingleServer.lean`: a scheduling pass lets runs in, START begins with one, the
finishing update ends it, and DONE cuts what waits to `maxPendingTasks`.

* `World.server` — what the server of a job is in a state of the worker;
* `World.shows` — what a step of the worker shows of a job;
* `worker_simulates` — every step of the worker is a path of the server;
* `worker_refines` — so is every run, in the face of reloads that drop and bring back the job;
* `runs_serial` — the runs of a job are begun and finished one after another, and none is begun that
  was not due.
-/

/-! ### The abstraction -/

/-- The server of a job. -/
def World.server (k : Int) (w : World) : SingleServer.State Int where
  accepting := (getCronJob w.jobs k).isSome
  waiting := (w.queue k).toNat
  serving := w.heldRun k

/-- What a call shows of a run. -/
def Call.event : Call → List (SingleServer.Event Int RunStatus)
  | .insertRun runId _ _ _ _ => [.begin runId]
  | .finishRun runId status _ _ => [.finish runId status]
  | _ => []

/-- What the recorded calls show of the runs of a job. -/
def jobEvents (k : Int) (entries : List Entry) : List (SingleServer.Event Int RunStatus) :=
  (entries.filter fun e => e.jobId = k).flatMap fun e => e.call.event

/-- What a step shows of a job: the runs that it adds to the queue and cuts off it, and the
    statements that it makes for the job. -/
def World.shows (k : Int) (w : World) (l : Label) : List (SingleServer.Event Int RunStatus) :=
  (if 0 < w.increments k l then [.arrive (w.increments k l).toNat] else []) ++
    ((if 0 < w.truncated k l then [.cut (w.truncated k l).toNat] else []) ++
      jobEvents k (w.recorded l))

/-- The steps of a server whose queue is cut to `maxPendingTasks`. -/
abbrev ServerAllowed : Simulation.System (SingleServer.State Int)
    (SingleServer.Event Int RunStatus) :=
  SingleServer.Allowed maxPendingTasks.toNat

theorem jobEvents_append (k : Int) (entries more : List Entry) :
    jobEvents k (entries ++ more) = jobEvents k entries ++ jobEvents k more := by
  unfold jobEvents
  rw [List.filter_append, List.flatMap_append]

theorem jobEvents_cons (k : Int) (e : Entry) (entries : List Entry) :
    jobEvents k (e :: entries) =
      (if e.jobId = k then e.call.event else []) ++ jobEvents k entries := by
  unfold jobEvents
  rw [List.filter_cons]
  by_cases hk : e.jobId = k
  · simp [hk]
  · simp [hk]

/-- Entries without an event of the job. -/
theorem jobEvents_eq_nil {k : Int} {entries : List Entry}
    (h : ∀ e ∈ entries, e.jobId = k → e.call.event = []) : jobEvents k entries = [] := by
  refine List.flatMap_eq_nil_iff.mpr fun e he => ?_
  obtain ⟨hmem, hk⟩ := List.mem_filter.mp he
  exact h e hmem (of_decide_eq_true hk)

/-- The turn of a job's own task shows all its calls. -/
theorem jobEvents_entries (k currentTime : Int) (turn : Turn) :
    jobEvents k (turn.entries k currentTime) = turn.calls.flatMap Call.event := by
  unfold Turn.entries
  induction turn.calls with
  | nil => rfl
  | cons call calls ih => rw [List.map_cons, jobEvents_cons, if_pos rfl, ih, List.flatMap_cons]

/-- A call has one event at most, and a service. -/
theorem mem_event {call : Call} {event : SingleServer.Event Int RunStatus}
    (h : event ∈ call.event) :
    call.event = [event] ∧ event.isService = true ∧ event.arrived = 0 := by
  cases call with
  | insertRun runId jobId database userName startTime =>
    obtain rfl := List.mem_singleton.mp h
    exact ⟨rfl, rfl, rfl⟩
  | finishRun runId status message endTime =>
    obtain rfl := List.mem_singleton.mp h
    exact ⟨rfl, rfl, rfl⟩
  | _ => exact absurd h List.not_mem_nil

/-- Each event comes from an entry of the job. -/
theorem mem_jobEvents {k : Int} {entries : List Entry}
    {event : SingleServer.Event Int RunStatus} (h : event ∈ jobEvents k entries) :
    (∃ e ∈ entries, e.jobId = k ∧ e.call.event = [event]) ∧ event.isService = true ∧
      event.arrived = 0 := by
  obtain ⟨e, he, hevent⟩ := List.mem_flatMap.mp h
  obtain ⟨hmem, hk⟩ := List.mem_filter.mp he
  obtain ⟨hsingle, hrest⟩ := mem_event hevent
  exact ⟨⟨e, hmem, of_decide_eq_true hk, hsingle⟩, hrest⟩

/-! ### Steps that make no statements -/

/-- A step that shows no statement and cuts nothing off, and that adds to the queue only if the
    job stays loaded. -/
theorem path_quiet {w : World} (h : w.Accounted) {k : Int} {l : Label}
    (hqueue : (w.step l).queue k = w.queue k + w.increments k l)
    (hheld : (w.step l).heldRun k = w.heldRun k) (htruncated : w.truncated k l = 0)
    (hstatements : jobEvents k (w.recorded l) = [])
    (hadds : 0 < w.increments k l → (getCronJob w.jobs k).isSome = true ∧ (w.step l).jobs = w.jobs)
    (hnonneg : 0 ≤ w.increments k l) :
    Simulation.Path ServerAllowed (w.server k) (w.shows k l) ((w.step l).server k) := by
  have hpositive := queue_nonneg h k
  unfold World.shows
  -- the runs arrive at the server, unless the step adds none
  rw [htruncated, hstatements, if_neg (lt_irrefl 0), List.append_nil, List.append_nil]
  by_cases hadds' : 0 < w.increments k l
  · rw [if_pos hadds']
    obtain ⟨hloaded, hjobs⟩ := hadds hadds'
    have hserver : (w.step l).server k =
        { w.server k with waiting := (w.server k).waiting + (w.increments k l).toNat } := by
      unfold World.server
      rw [hjobs, hheld, hqueue, Int.toNat_add hpositive hnonneg]
    rw [hserver]
    exact .single_seen (.arrives _ _ hloaded)
  · rw [if_neg hadds']
    have hzero : w.increments k l = 0 := by omega
    have hserver : (w.step l).server k =
        { w.server k with accepting := (getCronJob (w.step l).jobs k).isSome } := by
      unfold World.server
      rw [hheld, hqueue, hzero, Int.add_zero]
    rw [hserver]
    cases (getCronJob (w.step l).jobs k).isSome with
    | true => exact .single_silent (.opens _)
    | false => exact .single_silent (.closes _)

/-- A step that records nothing shows no statement. -/
theorem no_statements {w : World} {l : Label} (htrace : (w.step l).trace = w.trace) (k : Int) :
    jobEvents k (w.recorded l) = [] := by
  have hnone : w.recorded l = [] :=
    @recorded_eq w l [] (by rw [htrace, List.append_nil])
  rw [hnone]
  rfl

/-- A reload leaves the queues alone. -/
theorem queue_reload (w : World) (source : ReloadSource) (currentTime k : Int) :
    (w.reload source currentTime).queue k = w.queue k := by
  unfold World.queue
  rw [lookup_reload]
  by_cases hloaded : k ∈ (w.reload source currentTime).jobs.keys
  · rw [if_pos hloaded]
    cases w.tasks.lookup k <;> rfl
  · rw [if_neg hloaded]
    cases w.tasks.lookup k <;> rfl

/-- A scheduling pass adds what it counts, to the queues of loaded jobs only. -/
theorem queue_pass (w : World) (currentTime k : Int) :
    (w.startPending currentTime).queue k =
      w.queue k + w.increments k (.startPending currentTime) := by
  cases hlookup : w.tasks.lookup k with
  | none =>
    have hlookup' : (w.startPending currentTime).tasks.lookup k = none := by
      rw [lookup_startPending, hlookup]
      rfl
    rw [World.queue, World.queue, World.increments, hlookup, hlookup']
    rfl
  | some task =>
    have hbalance := queue_startPending hlookup currentTime
    have hsame : (w.startPending currentTime).insertedFor k = w.insertedFor k := rfl
    omega

/-- Only a loaded job gets more runs, and by a step that reloads nothing. -/
theorem loaded_of_increments {w : World} (h : w.Accounted) {k : Int} {l : Label}
    (hadds : 0 < w.increments k l) :
    (getCronJob w.jobs k).isSome = true ∧ (w.step l).jobs = w.jobs := by
  cases l with
  | startPending currentTime =>
    refine ⟨?_, rfl⟩
    unfold World.increments at hadds
    dsimp only at hadds
    cases hlookup : w.tasks.lookup k with
    | none =>
      rw [hlookup] at hadds
      exact absurd hadds (lt_irrefl 0)
    | some task =>
      rw [hlookup] at hadds
      unfold passIncrements at hadds
      dsimp only at hadds
      rw [(h.ok.tasks k task hlookup).keyed] at hadds
      cases hjob : getCronJob w.jobs k with
      | none =>
        rw [hjob] at hadds
        exact absurd hadds (lt_irrefl 0)
      | some job => rfl
  | _ => exact absurd hadds (lt_irrefl 0)

/-- A wait may fail a run, but not take it back. -/
theorem queue_waitForEvent (w : World) (io : WaitReplies) (k : Int) :
    (w.waitForEvent io).queue k = w.queue k := by
  cases hlookup : w.tasks.lookup k with
  | none =>
    have hlookup' : (w.waitForEvent io).tasks.lookup k = none := by
      rw [lookup_wait, hlookup]
      rfl
    rw [World.queue, World.queue, hlookup, hlookup']
  | some task =>
    have hbalance := queue_wait hlookup io
    obtain ⟨entries, htrace, hentries⟩ := trace_wait w io
    have hsame : (w.waitForEvent io).insertedFor k = w.insertedFor k := by
      refine insertedFor_eq htrace fun e he _ => ?_
      obtain ⟨-, conn, -, -, -, -, hcall⟩ := hentries e he
      rw [hcall]
      rfl
    omega

/-! ### Turns -/

/-- The calls of a task with an open run, or without one, that insert no row. -/
theorem path_calls {calls : List Call}
    (hinsert : Ledger.acquired (calls.flatMap Call.runEvents) = []) {accepting : Bool}
    {waiting : Nat} {held held' : Option Int}
    (htrack : Ledger.track held (calls.flatMap Call.runEvents) = some held') :
    Simulation.Path ServerAllowed ⟨accepting, waiting, held⟩ (calls.flatMap Call.event)
      ⟨accepting, waiting, held'⟩ := by
  induction calls generalizing held with
  | nil =>
    obtain rfl := Option.some.inj ((Ledger.track_nil held).symm.trans htrack)
    exact .refl _
  | cons call calls ih =>
    rw [List.flatMap_cons, Ledger.acquired_append, List.append_eq_nil_iff] at hinsert
    rw [List.flatMap_cons, Ledger.track_append] at htrack
    rw [List.flatMap_cons]
    cases call with
    | insertRun runId jobId database userName startTime =>
      exact absurd hinsert.1 (by simp [Call.runEvents])
    | updatePID runId pid =>
      -- noting the PID leaves the run open
      cases held with
      | none => exact absurd htrack (by simp [Call.runEvents, Ledger.track])
      | some r =>
        by_cases hr : runId = r
        · rw [hr] at htrack
          have huse : Ledger.track (some r) (Call.runEvents (.updatePID r pid)) = some (some r) :=
            Ledger.track_use r []
          rw [huse, Option.bind_some] at htrack
          exact ih hinsert.2 htrack
        · exact absurd htrack (by simp [Call.runEvents, Ledger.track, hr])
    | finishRun runId status message endTime =>
      cases held with
      | none => exact absurd htrack (by simp [Call.runEvents, Ledger.track])
      | some r =>
        by_cases hr : runId = r
        · subst hr
          have hrelease : Ledger.track (some runId)
              (Call.runEvents (.finishRun runId status message endTime)) = some none :=
            Ledger.track_release runId []
          rw [hrelease, Option.bind_some] at htrack
          exact .seen (.finishes ⟨accepting, waiting, some runId⟩ runId status rfl)
            (ih hinsert.2 htrack)
        · exact absurd htrack (by simp [Call.runEvents, Ledger.track, hr])
    | _ =>
      change (Ledger.track held []).bind _ = some held' at htrack
      rw [Ledger.track_nil, Option.bind_some] at htrack
      exact ih hinsert.2 htrack

/-- The calls of a turn are all that the step shows of the job, but for what it cuts off. -/
theorem shows_turn {w : World} {k : Int} {task : CronTask} (hlookup : w.tasks.lookup k = some task)
    (currentTime : Int) (gap : Nat) (io : Replies) :
    w.shows k (.manage k currentTime gap io) =
      (if 0 < task.excess then [.cut task.excess.toNat] else []) ++
        (w.turn task currentTime gap io).calls.flatMap Call.event := by
  have hincrements : w.increments k (.manage k currentTime gap io) = 0 := rfl
  have htruncated : w.truncated k (.manage k currentTime gap io) = task.excess := by
    rw [World.truncated, if_pos rfl, hlookup]
  rw [World.shows, hincrements, htruncated, if_neg (lt_irrefl 0), List.nil_append,
    recorded_manage hlookup, jobEvents_entries]

/-- The server of a job after the turn of its task. -/
theorem server_turn {w : World} {k : Int} {task : CronTask} (hlookup : w.tasks.lookup k = some task)
    (currentTime : Int) (gap : Nat) (io : Replies) :
    (w.step (.manage k currentTime gap io)).server k =
      ⟨(getCronJob w.jobs k).isSome,
        (((w.turn task currentTime gap io).fate.task.map CronTask.queued).getD 0).toNat,
        (w.turn task currentTime gap io).fate.openRun⟩ := by
  have hheld := (held_manage hlookup currentTime gap io k).2
  rw [if_pos rfl] at hheld
  have hqueue : (w.manage k currentTime gap io).queue k =
      ((w.turn task currentTime gap io).fate.task.map CronTask.queued).getD 0 := by
    rw [World.queue, lookup_manage_self hlookup]
    show _ = ((Fate.task (manageCronTask (w.context task currentTime gap) task io).fate).map
      CronTask.queued).getD 0
    cases (manageCronTask (w.context task currentTime gap) task io).fate.task <;> rfl
  rw [World.step, World.server, jobs_manage, hqueue, hheld]

/-- Calls that acquire no run insert none. -/
theorem inserts_of_acquired {calls : List Call}
    (h : Ledger.acquired (calls.flatMap Call.runEvents) = []) : inserts calls = 0 := by
  induction calls with
  | nil => rfl
  | cons call calls ih =>
    rw [List.flatMap_cons, Ledger.acquired_append, List.append_eq_nil_iff] at h
    have hrest := ih h.2
    unfold inserts at hrest ⊢
    cases call with
    | insertRun runId jobId database userName startTime =>
      exact absurd h.1 (by simp [Call.runEvents])
    | _ => simpa [List.countP_cons, Call.isInsert] using hrest

/-- Calls without a statement are no event. -/
theorem events_of_no_statement {calls : List Call} (h : statements calls = []) :
    calls.flatMap Call.event = [] ∧ inserts calls = 0 := by
  rw [statements, List.filter_eq_nil_iff] at h
  constructor
  · rw [List.flatMap_eq_nil_iff]
    intro call hcall
    have hnot := h call hcall
    cases call <;> first | rfl | exact absurd rfl hnot
  · have hnone : calls.countP Call.isInsert = 0 := by
      rw [List.countP_eq_zero]
      intro call hcall
      have hnot := h call hcall
      cases call <;> first | exact Bool.false_ne_true | exact absurd rfl hnot
    rw [inserts, hnone]
    rfl

/-- DONE frees the server for the next run, and cuts the queue. -/
theorem path_done {w : World} (h : w.Accounted) {k : Int} {task : CronTask}
    (hlookup : w.tasks.lookup k = some task) (hdone : task.state = .done) (currentTime : Int)
    (gap : Nat) (io : Replies) :
    Simulation.Path ServerAllowed (w.server k) (w.shows k (.manage k currentTime gap io))
      ((w.step (.manage k currentTime gap io)).server k) := by
  -- the turn of DONE
  have hturn : w.turn task currentTime gap io = manageDone task := by
    rw [World.turn, manageCronTask, hdone]
  have hserver : w.server k = ⟨(getCronJob w.jobs k).isSome, task.pendingRunCount.toNat, none⟩ := by
    rw [World.server, queue_of_lookup hlookup, heldRun_of_lookup hlookup,
      openRun_of_not_inFlight (by rw [hdone]; rfl), CronTask.queued, hdone,
      if_neg (by decide), Int.add_zero]
  have hnonneg := h.nonneg k task hlookup
  rw [shows_turn hlookup, server_turn hlookup, hturn, hserver]
  -- a queue that is too long is cut, and that is seen
  by_cases hlong : task.pendingRunCount > maxPendingTasks
  · have hexcess : task.excess = task.pendingRunCount - maxPendingTasks := if_pos ⟨hdone, hlong⟩
    have hcut : (task.pendingRunCount - maxPendingTasks).toNat =
        task.pendingRunCount.toNat - maxPendingTasks.toNat := by
      unfold maxPendingTasks
      omega
    rw [hexcess, if_pos (by omega), hcut, manageDone, if_pos hlong]
    refine .single_seen (.cuts ⟨_, task.pendingRunCount.toNat, none⟩ rfl ?_)
    unfold maxPendingTasks at *
    show Int.toNat 20 < task.pendingRunCount.toNat
    omega
  · have hexcess : task.excess = 0 := if_neg fun hboth => hlong hboth.2
    rw [hexcess, if_neg (lt_irrefl 0), manageDone, if_neg hlong]
    have hqueued : (resetCronTaskAfterRun task).queued = task.pendingRunCount := Int.add_zero _
    change Simulation.Path ServerAllowed _ []
      ⟨_, (resetCronTaskAfterRun task).queued.toNat, none⟩
    rw [hqueued]
    exact .refl _

/-- START begins with a run. -/
theorem path_start {w : World} (h : w.Accounted) {k : Int} {task : CronTask}
    (hlookup : w.tasks.lookup k = some task) (hstate : task.state = .start)
    (hloaded : (getCronJob w.jobs k).isSome = true) (currentTime : Int) (gap : Nat)
    (io : Replies) :
    Simulation.Path ServerAllowed (w.server k) (w.shows k (.manage k currentTime gap io))
      ((w.step (.manage k currentTime gap io)).server k) := by
  have hexcess : task.excess = 0 := if_neg fun hboth => by
    rw [hstate] at hboth
    exact absurd hboth.1 (by decide)
  have hkeyed := (h.ok.tasks k task hlookup).keyed
  -- the row is inserted before anything else
  obtain ⟨job, rest, hcalls, hrest⟩ : ∃ (job : CronJob) (rest : List Call),
      (w.turn task currentTime gap io).calls = .insertRun (w.history.nextRunId gap) job.jobId
        job.database job.userName io.timestamp :: rest ∧ statements rest = [] := by
    rcases (turn_outcome w task currentTime gap io).insertion with
      ⟨job, rest, -, -, hcalls, hrest⟩ | ⟨hnot, -⟩
    · exact ⟨job, rest, hcalls, hrest⟩
    · refine absurd ⟨hstate, ?_⟩ hnot
      show (getCronJob w.jobs task.jobId).isSome = true
      rw [hkeyed]
      exact hloaded
  obtain ⟨hevents, hinserts⟩ := events_of_no_statement hrest
  obtain ⟨task', hkept, hconserves⟩ := h.turn hloaded hlookup currentTime gap io
  have hone : inserts (w.turn task currentTime gap io).calls = 1 := by
    rw [hcalls, ← List.singleton_append, inserts_append, hinserts]
    rfl
  have hfree : w.heldRun k = none := by
    rw [heldRun_of_lookup hlookup]
    exact openRun_of_not_inFlight (by rw [hstate]; rfl)
  have hopen : (w.turn task currentTime gap io).fate.openRun = some (w.history.nextRunId gap) := by
    have htrack := (turn_owns_run h.ok hlookup currentTime gap io).track
    rw [hcalls, List.flatMap_cons, runEvents_of_no_statement hrest, hfree] at htrack
    exact (Option.some.inj htrack).symm
  rw [hone, hexcess, Int.sub_zero] at hconserves
  have hpending := h.nonneg k task hlookup
  have hqueued : task.queued = task.pendingRunCount + 1 := by rw [CronTask.queued, if_pos hstate]
  have hserver : w.server k = ⟨true, task.queued.toNat, none⟩ := by
    rw [World.server, hloaded, hfree, queue_of_lookup hlookup]
  have hserver' : (w.step (.manage k currentTime gap io)).server k =
      ⟨true, task.queued.toNat - 1, some (w.history.nextRunId gap)⟩ := by
    rw [server_turn hlookup, hloaded, hopen, hkept]
    show (⟨true, task'.queued.toNat, _⟩ : SingleServer.State Int) = _
    rw [show task'.queued.toNat = task.queued.toNat - 1 by omega]
  rw [shows_turn hlookup, hserver, hserver', hexcess, if_neg (lt_irrefl 0), List.nil_append, hcalls,
    List.flatMap_cons, hevents, List.append_nil]
  exact .single_seen (.begins ⟨true, task.queued.toNat, none⟩ _ rfl rfl
    (by show 0 < task.queued.toNat; omega))

/-- **A turn** is a path of the server of its job. -/
theorem path_turn {w : World} (h : w.Accounted) {k : Int} {task : CronTask}
    (hlookup : w.tasks.lookup k = some task) (currentTime : Int) (gap : Nat) (io : Replies) :
    Simulation.Path ServerAllowed (w.server k) (w.shows k (.manage k currentTime gap io))
      ((w.step (.manage k currentTime gap io)).server k) := by
  by_cases hdone : task.state = .done
  · exact path_done h hlookup hdone currentTime gap io
  by_cases hstart : task.state = .start ∧ (getCronJob w.jobs k).isSome = true
  · exact path_start h hlookup hstart.1 hstart.2 currentTime gap io
  -- in any other state no row is inserted, and nothing is cut off
  have hexcess : task.excess = 0 := if_neg fun hboth => hdone hboth.1
  have hkeyed := (h.ok.tasks k task hlookup).keyed
  have hnone : Ledger.acquired
      ((w.turn task currentTime gap io).calls.flatMap Call.runEvents) = [] := by
    rcases (turn_outcome w task currentTime gap io).insertion with
      ⟨job, rest, hstate, hjob, -, -⟩ | ⟨-, hnone⟩
    · refine absurd ⟨hstate, ?_⟩ hstart
      change getCronJob w.jobs task.jobId = some job at hjob
      rw [← hkeyed, hjob]
      rfl
    · exact hnone
  have htrack := (turn_owns_run h.ok hlookup currentTime gap io).track
  rw [shows_turn hlookup, server_turn hlookup, hexcess, if_neg (lt_irrefl 0), List.nil_append]
  by_cases hloaded : (getCronJob w.jobs k).isSome = true
  · -- the queue of a loaded job is left alone
    obtain ⟨task', hkept, hconserves⟩ := h.turn hloaded hlookup currentTime gap io
    rw [inserts_of_acquired hnone, hexcess, Int.add_zero, Int.sub_zero] at hconserves
    rw [World.server, queue_of_lookup hlookup, ← hconserves]
    have hqueue : (((w.turn task currentTime gap io).fate.task.map CronTask.queued).getD 0) =
        task'.queued := by
      rw [hkept]
      rfl
    rw [hqueue]
    exact path_calls hnone htrack
  · -- the task of a job that is gone is removed, with its queue
    have hinactive : task.isActive = false := by
      have hactive := h.active k task hlookup
      rw [hkeyed] at hactive
      simpa [hloaded] using hactive
    have hjob : (w.context task currentTime gap).job = none := by
      show getCronJob w.jobs task.jobId = none
      rw [hkeyed]
      simpa using hloaded
    have hremoved : (w.turn task currentTime gap io).fate.task = none := by
      rcases turn_unloaded io hjob hinactive with ⟨-, hremoved⟩ | ⟨task', -, -, -, hfrom⟩
      · change (w.turn task currentTime gap io).fate = .removed at hremoved
        rw [hremoved]
        rfl
      · exact absurd hfrom hdone
    rw [hremoved]
    refine .silent (.givesUp (w.server k) 0 (Bool.eq_false_iff.mpr hloaded) (Nat.zero_le _)) ?_
    exact path_calls hnone htrack

/-! ### The simulation -/

/-- A turn of another job's task shows nothing of a job. -/
theorem path_other {w : World} (h : w.Accounted) {k jobId : Int} (hk : jobId ≠ k)
    (currentTime : Int) (gap : Nat) (io : Replies) :
    Simulation.Path ServerAllowed (w.server k) (w.shows k (.manage jobId currentTime gap io))
      ((w.step (.manage jobId currentTime gap io)).server k) := by
  have hlookup : (w.manage jobId currentTime gap io).tasks.lookup k = w.tasks.lookup k :=
    lookup_manage_ne (Ne.symm hk) currentTime gap io
  refine path_quiet h ?_ ?_ (if_neg hk) ?_ (fun hadds => absurd hadds (lt_irrefl 0)) (le_refl 0)
  · show (w.manage jobId currentTime gap io).queue k = w.queue k + 0
    rw [World.queue, World.queue, hlookup, Int.add_zero]
  · show (w.manage jobId currentTime gap io).heldRun k = w.heldRun k
    rw [World.heldRun, World.heldRun, hlookup]
  · cases hold : w.tasks.lookup jobId with
    | none => exact no_statements (by rw [World.step, manage_none hold]) k
    | some task =>
      rw [recorded_manage hold]
      refine jobEvents_eq_nil fun e he heq => ?_
      obtain ⟨call, -, rfl⟩ := List.mem_map.mp he
      exact absurd heq hk

/-- **Every step of the worker** is a path of the server of each job. -/
theorem worker_simulates (k : Int) :
    Simulation.Simulates World.step (World.shows k) World.Accounted (World.server k)
      ServerAllowed where
  kept _ l h := h.step l
  path w l h := by
    cases l with
    -- steps that are no turn and add nothing
    | invalidate =>
      exact path_quiet h (Int.add_zero _).symm rfl rfl (no_statements rfl k)
        (loaded_of_increments h) (le_refl 0)
    | sighup statementTimeout =>
      exact path_quiet h (Int.add_zero _).symm rfl rfl (no_statements rfl k)
        (loaded_of_increments h) (le_refl 0)
    | deleteRuns gone =>
      exact path_quiet h (Int.add_zero _).symm rfl rfl (no_statements rfl k)
        (loaded_of_increments h) (le_refl 0)
    | reload source currentTime =>
      exact path_quiet h ((queue_reload w source currentTime k).trans (Int.add_zero _).symm)
        (congrFun (quiet_reload w source currentTime).owns.2 k) rfl (no_statements rfl k)
        (loaded_of_increments h) (le_refl 0)
    | startPending currentTime =>
      -- a pass adds what the server sees arrive
      exact path_quiet h (queue_pass w currentTime k)
        (congrFun (quiet_startPending w currentTime).owns.2 k) rfl (no_statements rfl k)
        (loaded_of_increments h) (increments_nonneg w k _)
    | wait io =>
      refine path_quiet h ((queue_waitForEvent w io k).trans (Int.add_zero _).symm)
        (congrFun (wait_owns h.ok io).2 k) rfl ?_ (loaded_of_increments h) (le_refl 0)
      -- the calls of a wait are no services
      obtain ⟨entries, htrace, hentries⟩ := trace_wait w io
      rw [recorded_eq (l := .wait io) htrace]
      refine jobEvents_eq_nil fun e he _ => ?_
      obtain ⟨-, conn, -, -, -, -, hcall⟩ := hentries e he
      rw [hcall]
      rfl
    | manage jobId currentTime gap io =>
      -- the turn of the job itself, or of another one
      by_cases hk : jobId = k
      · subst hk
        cases hlookup : w.tasks.lookup jobId with
        | some task => exact path_turn h hlookup currentTime gap io
        | none =>
          refine path_quiet h ?_ ?_ ?_ (no_statements (by rw [World.step, manage_none hlookup]) _)
            (loaded_of_increments h) (le_refl 0)
          · rw [World.step, manage_none hlookup]
            exact (Int.add_zero _).symm
          · rw [World.step, manage_none hlookup]
          · rw [World.truncated, if_pos rfl, hlookup]
      · exact path_other h hk currentTime gap io

/-- What a step shows of the statements is what it records. -/
theorem services_shows (w : World) (l : Label) (k : Int) :
    (w.shows k l).filter SingleServer.Event.isService = jobEvents k (w.recorded l) := by
  have hevents : (jobEvents k (w.recorded l)).filter SingleServer.Event.isService =
      jobEvents k (w.recorded l) :=
    List.filter_eq_self.mpr fun event hevent => (mem_jobEvents hevent).2.1
  unfold World.shows
  rw [List.filter_append, List.filter_append, hevents]
  split <;> split <;> rfl

/-- The statements for a job that a run shows are those that it records. -/
theorem services_run (w : World) (ls : List Label) (k : Int) :
    jobEvents k (Machine.run World.step w ls).trace = jobEvents k w.trace ++
      (Simulation.shown World.step (World.shows k) w ls).filter SingleServer.Event.isService := by
  induction ls generalizing w with
  | nil => exact (List.append_nil _).symm
  | cons l ls ih =>
    rw [Machine.run_cons, ih, trace_eq_recorded, jobEvents_append, Simulation.shown,
      List.filter_append, services_shows, List.append_assoc]

/-- The runs that a step lets in are those that it adds to the queue. -/
theorem arrived_shows (w : World) (l : Label) (k : Int) :
    ((w.shows k l).map SingleServer.Event.arrived).sum = (w.increments k l).toNat := by
  have hevents : ((jobEvents k (w.recorded l)).map SingleServer.Event.arrived).sum = 0 := by
    refine List.sum_eq_zero fun n hn => ?_
    obtain ⟨event, hevent, rfl⟩ := List.mem_map.mp hn
    exact (mem_jobEvents hevent).2.2
  unfold World.shows
  rw [List.map_append, List.map_append, List.sum_append, List.sum_append, hevents]
  by_cases hadds : 0 < w.increments k l
  · rw [if_pos hadds]
    split <;> simp [SingleServer.Event.arrived]
  · rw [if_neg hadds, Int.toNat_of_nonpos (not_lt.mp hadds)]
    split <;> simp [SingleServer.Event.arrived]

/-- The arrivals shown in a run are the increments of its passes. -/
theorem arrived_run (w : World) (ls : List Label) (k : Int) :
    (((Simulation.shown World.step (World.shows k) w ls).map
        SingleServer.Event.arrived).sum : Int) =
      Machine.total World.step (World.increments k) w ls := by
  induction ls generalizing w with
  | nil => rfl
  | cons l ls ih =>
    have hnonneg := increments_nonneg w k l
    rw [Simulation.shown, List.map_append, List.sum_append, arrived_shows, Machine.total, ← ih]
    omega

/-- The runs that are inserted for a job are those that the statements for it begin. -/
theorem insertedFor_eq_countP (w : World) (k : Int) :
    w.insertedFor k = ((jobEvents k w.trace).countP SingleServer.Event.isBegin : Nat) := by
  unfold World.insertedFor
  congr 1
  induction w.trace with
  | nil => rfl
  | cons e trace ih =>
    have hone : e.call.event.countP SingleServer.Event.isBegin =
        if e.call.isInsert = true then 1 else 0 := by
      cases e.call <;> rfl
    rw [List.countP_cons, ih, jobEvents_cons, List.countP_append]
    by_cases hk : e.jobId = k
    · rw [if_pos hk, hone, decide_eq_true hk, Bool.true_and, Nat.add_comm]
    · rw [if_neg hk, decide_eq_false hk, Bool.false_and, if_neg Bool.false_ne_true,
        List.countP_nil, Nat.add_comm]

/-- **The worker refines the server of each job.**  Every run of the worker, with any reloads,
    waits, scheduling passes and turns, is a path of the server of a job, and shows the statements
    of the job in the order in which they are made. -/
theorem worker_refines (statementTimeout : StatementTimeout) (history : History) (ls : List Label)
    (k : Int) :
    let w := Machine.run World.step (World.launch statementTimeout history) ls
    let shown := Simulation.shown World.step (World.shows k)
      (World.launch statementTimeout history) ls
    Simulation.Path ServerAllowed SingleServer.State.initial shown (w.server k) ∧
      shown.filter SingleServer.Event.isService = jobEvents k w.trace := by
  intro w shown
  exact ⟨(worker_simulates k).run ls (accounted_launch statementTimeout history),
    (services_run (World.launch statementTimeout history) ls k).symm⟩

/-- **One run at a time.**  Between two insertions for a job, the first of the two runs gets its
    finishing update; and no more runs are inserted for a job than its schedules have made due, even
    if the job is dropped and comes back. -/
theorem runs_serial (statementTimeout : StatementTimeout) (history : History) (ls : List Label)
    (k : Int) :
    let w := Machine.run World.step (World.launch statementTimeout history) ls
    (∀ before between after e e' r r', w.trace = before ++ e :: (between ++ e' :: after) →
      e.jobId = k → e'.jobId = k → e.call.event = [.begin r] → e'.call.event = [.begin r'] →
        ∃ f ∈ between, f.jobId = k ∧ ∃ status, f.call.event = [.finish r status]) ∧
    w.insertedFor k + w.queue k ≤
      Machine.total World.step (World.increments k) (World.launch statementTimeout history) ls := by
  intro w
  have haccounted := accounted_launch statementTimeout history
  have hpath := (worker_simulates k).run ls haccounted
  have hservices : jobEvents k w.trace = (Simulation.shown World.step (World.shows k)
      (World.launch statementTimeout history) ls).filter SingleServer.Event.isService :=
    services_run (World.launch statementTimeout history) ls k
  constructor
  · intro before between after e e' r r' htrace hjob hjob' hbegin hbegin'
    rw [htrace, jobEvents_append, jobEvents_cons, if_pos hjob, hbegin, jobEvents_append,
      jobEvents_cons, if_pos hjob', hbegin'] at hservices
    obtain ⟨status, hmem⟩ := SingleServer.path_between hpath hservices.symm
    obtain ⟨f, hf, hk, hevent⟩ := (mem_jobEvents hmem).1
    exact ⟨f, hf, hk, status, hevent⟩
  · have hcounts := SingleServer.path_counts hpath
    have hbegins : w.insertedFor k = ((Simulation.shown World.step (World.shows k)
        (World.launch statementTimeout history) ls).countP SingleServer.Event.isBegin : Nat) := by
      rw [insertedFor_eq_countP, hservices, List.countP_filter]
      congr 2
      funext event
      cases event <;> rfl
    have harrived := arrived_run (World.launch statementTimeout history) ls k
    have hpositive : 0 ≤ w.queue k :=
      queue_nonneg (Machine.run_induction (fun _ l h => h.step l) ls haccounted) k
    change _ + (w.queue k).toNat ≤ 0 + _ at hcounts
    omega

end NedoCron
