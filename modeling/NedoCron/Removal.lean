import NedoCron.OneVersion

namespace NedoCron

/-!
# nedo_cron — jobs that are removed

The reload that drops a job leaves its task in the table, marked inactive, and the task is
removed by its own steps, from whatever state it is in.

* `ActiveMatches` — a task is active exactly if its job is loaded, in every state reached;
* `Winding` — a task whose job is gone, by the number of its steps since;
* `removedJob_cleaned` — after two steps the task is gone, its connection is closed, its run is
  over, and nothing was started for the job.
-/

/-! ### Active tasks -/

/-- No step of a task changes whether it is active. -/
theorem Outcome.isActive_eq {context : StepContext} {io : Replies} {task : CronTask} {turn : Turn}
    (h : Outcome context io task turn) {task' : CronTask} (hkept : turn.fate = .kept task') :
    task'.isActive = task.isActive := by
  cases h with
  | removed hstate hactive => cases hkept
  | runs hstate base functions more hchecked hcancel =>
    cases hkept
    exact hchecked.isActive_eq
  | unread hstate base functions more hchecked hcancel fmt args =>
    cases hkept
    exact hchecked.isActive_eq
  | succeeded hstate base functions more hchecked hcancel hread =>
    cases hkept
    exact hchecked.isActive_eq
  | resultFailed hstate base functions more hchecked hcancel before after result busy hresults
      hbefore hfails fmt =>
    cases hkept
    exact (base.atResult_isActive result).trans hchecked.isActive_eq
  -- a task that is kept by the ERROR step keeps its flag
  | closed base hdone hbase =>
    have hbase' : base.isActive = task.isActive := by
      rcases hbase with ⟨rfl, -⟩ | ⟨-, rfl⟩ <;> rfl
    obtain ⟨-, rfl⟩ := manageError_kept hkept
    exact hbase'
  | reset hstate =>
    unfold manageDone at hkept
    split at hkept <;> (cases hkept; rfl)
  | _ => cases hkept; rfl

/-- Every task is active exactly if its job is loaded. -/
def World.ActiveMatches (w : World) : Prop :=
  ∀ k task, w.tasks.lookup k = some task →
    (task.isActive = true ↔ (getCronJob w.jobs task.jobId).isSome = true)

/-- A step that rewrites every task by itself and keeps the jobs keeps the flags right. -/
theorem activeMatches_of_map {w w' : World} {f : Int → CronTask → CronTask} (h : w.ActiveMatches)
    (htasks : ∀ k, w'.tasks.lookup k = (w.tasks.lookup k).map (f k)) (hjobs : w'.jobs = w.jobs)
    (hf : ∀ k task, (f k task).isActive = task.isActive ∧ (f k task).jobId = task.jobId) :
    w'.ActiveMatches := by
  intro k task' hlookup
  rw [htasks] at hlookup
  obtain ⟨task, hold, rfl⟩ := Option.map_eq_some_iff.mp hlookup
  rw [(hf k task).1, (hf k task).2, hjobs]
  exact h k task hold

/-- Every step keeps this. -/
theorem activeMatches_step {w : World} (hok : WorldOk w) (h : w.ActiveMatches) (l : Label) :
    (w.step l).ActiveMatches := by
  cases l with
  | invalidate => exact h
  | sighup statementTimeout => exact h
  | deleteRuns gone => exact h
  | reload source currentTime =>
    -- the flags are set anew: off for all tasks, then on for the loaded jobs
    intro k task hlookup
    rw [((hok.step (.reload source currentTime)).tasks k task hlookup).keyed]
    have hkeys : (getCronJob (w.reload source currentTime).jobs k).isSome = true ↔
        k ∈ (w.reload source currentTime).jobs.keys := by
      rw [getCronJob, AList.lookup_isSome, AList.mem_keys]
    show _ ↔ (getCronJob (w.reload source currentTime).jobs k).isSome = true
    rw [hkeys]
    change (w.reload source currentTime).tasks.lookup k = some task at hlookup
    rw [lookup_reload] at hlookup
    by_cases hmem : k ∈ (w.reload source currentTime).jobs.keys
    · rw [if_pos hmem] at hlookup
      obtain rfl := Option.some.inj hlookup
      exact iff_of_true rfl hmem
    · rw [if_neg hmem] at hlookup
      obtain ⟨old, -, rfl⟩ := Option.map_eq_some_iff.mp hlookup
      exact iff_of_false Bool.false_ne_true hmem
  | startPending currentTime =>
    refine activeMatches_of_map h (lookup_startPending w currentTime) rfl fun k task => ?_
    obtain ⟨n, t, heq⟩ := schedulePendingTask_eq w.jobs (initLastMinute w.lastMinute currentTime)
      currentTime task
    rw [heq]
    exact ⟨rfl, rfl⟩
  | wait io =>
    refine activeMatches_of_map h (lookup_wait w io) (wait_rest w io).1 fun k task => ?_
    split
    · exact ⟨rfl, rfl⟩
    · exact ⟨awaitTask_isActive io k task.unready, awaitTask_jobId io k task.unready⟩
  | manage jobId currentTime gap io =>
    cases hold : w.tasks.lookup jobId with
    | none =>
      rw [World.step, manage_none hold]
      exact h
    | some task =>
      intro k task' hlookup
      change (w.manage jobId currentTime gap io).tasks.lookup k = some task' at hlookup
      rw [World.step, jobs_manage]
      by_cases hk : k = jobId
      · subst hk
        have hkept := kept_of_lookup hold hlookup
        have hkeyed := ((hok.manage k currentTime gap io).tasks k task' hlookup).keyed
        rw [(turn_outcome w task currentTime gap io).isActive_eq hkept, hkeyed,
          ← (hok.tasks k task hold).keyed]
        exact h k task hold
      · rw [lookup_manage_ne hk] at hlookup
        exact h k task' hlookup

/-- So it holds in every reachable state. -/
theorem reached_active (statementTimeout : StatementTimeout) (history : History)
    (ls : List Label) :
    let w := Machine.run World.step (World.launch statementTimeout history) ls
    WorldOk w ∧ w.ActiveMatches :=
  Machine.run_induction (P := fun w => WorldOk w ∧ w.ActiveMatches)
    (fun _ l h => ⟨h.1.step l, activeMatches_step h.1 h.2 l⟩) ls
    ⟨worldOk_launch statementTimeout history, fun k task h => absurd h (by simp [World.launch])⟩

/-! ### Winding down -/

/-- The step is not a reload that loads the job. -/
def Label.leavesOut (k : Int) : Label → Prop
  | .reload source _ =>
    getCronJob (loadJobsList source.recoveryInProgress source.cronLoaded source.table) k = none
  | _ => True

/-- The step is a call of `ManageCronTask` on the task of the job. -/
def Label.isTurn (k : Int) : Label → Bool
  | .manage jobId _ _ _ => decide (jobId = k)
  | _ => false

/-- The job is gone, and its task has made `n` steps since: it is inactive, after one step it is
    not in DONE, and after two it is gone as well. -/
structure Winding (k : Int) (n : Nat) (w : World) : Prop where
  unloaded : getCronJob w.jobs k = none
  task : ∀ task, w.tasks.lookup k = some task →
    task.isActive = false ∧ n ≤ 1 ∧ (n = 1 → task.state ≠ .done)

/-- A step of another kind keeps a task inactive, and does not bring it to DONE. -/
theorem Winding.congr {k : Int} {n : Nat} {w w' : World} (h : Winding k n w)
    (hjobs : getCronJob w'.jobs k = none)
    (htask : ∀ task', w'.tasks.lookup k = some task' → ∃ task, w.tasks.lookup k = some task ∧
      (task.isActive = false → task'.isActive = false) ∧
      (task'.state = task.state ∨ task'.state = .error)) : Winding k n w' where
  unloaded := hjobs
  task task' hlookup := by
    obtain ⟨task, hold, hactive, hstate⟩ := htask task' hlookup
    obtain ⟨hinactive, hn, hdone⟩ := h.task task hold
    refine ⟨hactive hinactive, hn, fun hone hstate' => ?_⟩
    rcases hstate with heq | heq
    · exact hdone hone (heq ▸ hstate')
    · rw [heq] at hstate'
      exact absurd hstate' (by simp)

/-- **A step without the job**: out of DONE the task becomes WAITING, from any other state it is
    removed. -/
theorem turn_unloaded {context : StepContext} {task : CronTask} (io : Replies)
    (hjob : context.job = none) (hactive : task.isActive = false) :
    (task.state ≠ .done ∧ (manageCronTask context task io).fate = .removed) ∨
      ∃ task', (manageCronTask context task io).fate = .kept task' ∧
        task'.isActive = false ∧ task'.state = .waiting ∧ task.state = .done := by
  by_cases hstate : task.state = .done
  · have hturn : manageCronTask context task io = manageDone task := by
      rw [manageCronTask, hjob, hstate]
    refine Or.inr ?_
    rw [hturn, manageDone]
    split
    · exact ⟨_, rfl, hactive, rfl, hstate⟩
    · exact ⟨_, rfl, hactive, rfl, hstate⟩
  · refine Or.inl ⟨hstate, ?_⟩
    have hremoved : ∀ base : CronTask, base.isActive = false →
        (manageError base io).fate = .removed := fun base hbase => if_pos hbase
    unfold manageCronTask
    rw [hjob]
    cases hcase : task.state with
    | done => exact absurd hcase hstate
    | _ => exact hremoved _ hactive

/-- A task that survives a step of its own comes from DONE, and it was the first such step. -/
theorem Winding.turn {k : Int} {n : Nat} {w : World} (h : Winding k n w) (hok : WorldOk w)
    (currentTime : Int) (gap : Nat) (io : Replies) {task' : CronTask}
    (hlookup : (w.manage k currentTime gap io).tasks.lookup k = some task') :
    task'.isActive = false ∧ task'.state = .waiting ∧ n = 0 := by
  cases hold : w.tasks.lookup k with
  | none =>
    rw [manage_none hold, hold] at hlookup
    exact absurd hlookup (by simp)
  | some task =>
    obtain ⟨hinactive, hn, hdone⟩ := h.task task hold
    have hjob : (w.context task currentTime gap).job = none := by
      show getCronJob w.jobs task.jobId = none
      rw [(hok.tasks k task hold).keyed]
      exact h.unloaded
    have hkept := kept_of_lookup hold hlookup
    rcases turn_unloaded io hjob hinactive with ⟨-, hgone⟩ | ⟨t, hfate, hactive, hstate, hfrom⟩
    · exact absurd (hkept.symm.trans hgone) (by simp)
    · obtain rfl := Fate.kept.inj (hkept.symm.trans hfate)
      refine ⟨hactive, hstate, ?_⟩
      by_contra hne
      exact hdone (by omega) hfrom

/-- **A step** of the worker after the job is gone. -/
theorem Winding.step {k : Int} {n : Nat} {w : World} (h : Winding k n w) (hok : WorldOk w)
    (l : Label) (hleaves : l.leavesOut k) :
    Winding k (n + if l.isTurn k then 1 else 0) (w.step l) := by
  cases l with
  | invalidate => exact ⟨h.unloaded, h.task⟩
  | sighup statementTimeout => exact ⟨h.unloaded, h.task⟩
  | deleteRuns gone => exact ⟨h.unloaded, h.task⟩
  | reload source currentTime =>
    refine h.congr hleaves fun task' hlookup => ?_
    -- the task of an unloaded job is kept, only marked
    have hmem : k ∉ (w.reload source currentTime).jobs.keys := by
      rw [← AList.mem_keys, ← AList.lookup_eq_none]
      exact hleaves
    change (w.reload source currentTime).tasks.lookup k = some task' at hlookup
    rw [lookup_reload, if_neg hmem] at hlookup
    obtain ⟨task, hold, rfl⟩ := Option.map_eq_some_iff.mp hlookup
    exact ⟨task, hold, fun _ => rfl, Or.inl rfl⟩
  | startPending currentTime =>
    refine h.congr h.unloaded fun task' hlookup => ?_
    change (w.startPending currentTime).tasks.lookup k = some task' at hlookup
    rw [lookup_startPending] at hlookup
    obtain ⟨task, hold, rfl⟩ := Option.map_eq_some_iff.mp hlookup
    obtain ⟨pending, next, heq⟩ := schedulePendingTask_eq w.jobs
      (initLastMinute w.lastMinute currentTime) currentTime task
    rw [heq]
    exact ⟨task, hold, id, Or.inl rfl⟩
  | wait io =>
    refine h.congr ?_ fun task' hlookup => ?_
    · rw [World.step, (wait_rest w io).1]
      exact h.unloaded
    · change (w.waitForEvent io).tasks.lookup k = some task' at hlookup
      rw [lookup_wait] at hlookup
      obtain ⟨task, hold, rfl⟩ := Option.map_eq_some_iff.mp hlookup
      refine ⟨task, hold, ?_⟩
      split
      · exact ⟨id, Or.inl rfl⟩
      · rcases awaitTask_cases io k task.unready with ⟨ready, heq⟩ | ⟨-, fmt, args, status, heq⟩
        · rw [heq]
          exact ⟨id, Or.inl rfl⟩
        · rw [heq]
          exact ⟨id, Or.inr rfl⟩
  | manage jobId currentTime gap io =>
    refine ⟨?_, fun task' hlookup => ?_⟩
    · rw [World.step, jobs_manage]
      exact h.unloaded
    · change (w.manage jobId currentTime gap io).tasks.lookup k = some task' at hlookup
      by_cases hk : k = jobId
      · subst hk
        have hturn : (Label.manage k currentTime gap io).isTurn k = true := decide_eq_true rfl
        obtain ⟨hactive, hwaiting, rfl⟩ := h.turn hok currentTime gap io hlookup
        rw [hwaiting, hturn]
        exact ⟨hactive, le_refl 1, fun _ => by simp⟩
      · rw [lookup_manage_ne hk] at hlookup
        have hother : (Label.manage jobId currentTime gap io).isTurn k = false :=
          decide_eq_false (Ne.symm hk)
        rw [hother]
        exact h.task task' hlookup

/-- **A run** of the worker after the job is gone. -/
theorem Winding.run {k : Int} (ls : List Label) {n : Nat} {w : World} (h : Winding k n w)
    (hok : WorldOk w) (hleaves : ∀ l ∈ ls, l.leavesOut k) :
    Winding k (n + ls.countP (Label.isTurn k)) (Machine.run World.step w ls) := by
  induction ls generalizing n w with
  | nil => exact h
  | cons l ls ih =>
    have hstep := h.step hok l (hleaves l List.mem_cons_self)
    have hrun := ih hstep (hok.step l) fun l' hl' => hleaves l' (List.mem_cons_of_mem _ hl')
    rw [List.countP_cons, Nat.add_comm (List.countP _ _), ← Nat.add_assoc]
    exact hrun

/-! ### What happens meanwhile -/

/-- **A step** hands out nothing of a job that is gone: no run is inserted, no connection is
    opened and no command is sent. -/
theorem plain_step {k : Int} {w : World} (hjob : getCronJob w.jobs k = none) (hok : WorldOk w)
    (l : Label) : ∃ entries, (w.step l).trace = w.trace ++ entries ∧
      ∀ e ∈ entries, e.jobId = k → e.call.isPlain = true := by
  rcases step_cases w l with hquiet | ⟨io, rfl⟩ | ⟨jobId, currentTime, gap, io, rfl⟩
  · exact ⟨[], by rw [hquiet.trace, List.append_nil], by simp⟩
  · obtain ⟨entries, htrace, hentries⟩ := trace_wait w io
    refine ⟨entries, htrace, fun e he _ => ?_⟩
    obtain ⟨task, conn, -, -, -, -, hcall⟩ := hentries e he
    rw [hcall]
    rfl
  · cases hold : w.tasks.lookup jobId with
    | none =>
      refine ⟨[], ?_, by simp⟩
      rw [World.step, manage_none hold, List.append_nil]
    | some task =>
      refine ⟨(w.turn task currentTime gap io).entries jobId currentTime, ?_, fun e he hk => ?_⟩
      · rw [World.step, manage_eq hold]
      · obtain ⟨call, hcall, rfl⟩ := List.mem_map.mp he
        obtain rfl : jobId = k := hk
        have hnone : (w.context task currentTime gap).job = none := by
          show getCronJob w.jobs task.jobId = none
          rw [(hok.tasks jobId task hold).keyed]
          exact hjob
        rcases (turn_outcome w task currentTime gap io).mem_calls hcall with
          ⟨job, hsome, -⟩ | ⟨job, sent, hsome, -⟩ | hplain
        -- insertions and commands take the job from the table, which has none
        · exact absurd (hnone.symm.trans hsome) (by simp)
        · exact absurd (hnone.symm.trans hsome) (by simp)
        · exact hplain

/-- The calls of a job on its way out: it closes what is open, and hands out nothing. -/
theorem plain_run {k : Int} (ls : List Label) {n : Nat} {w : World} (h : Winding k n w)
    (hok : WorldOk w) (hleaves : ∀ l ∈ ls, l.leavesOut k) :
    ∃ entries, (Machine.run World.step w ls).trace = w.trace ++ entries ∧
      ∀ e ∈ entries, e.jobId = k → e.call.isPlain = true := by
  induction ls generalizing n w with
  | nil => exact ⟨[], (List.append_nil _).symm, by simp⟩
  | cons l ls ih =>
    obtain ⟨entries, htrace, hplain⟩ := plain_step h.unloaded hok l
    obtain ⟨more, hmore, hplain'⟩ := ih (h.step hok l (hleaves l List.mem_cons_self)) (hok.step l)
      fun l' hl' => hleaves l' (List.mem_cons_of_mem _ hl')
    refine ⟨entries ++ more, ?_, fun e he hk => ?_⟩
    · rw [Machine.run_cons, hmore, htrace, List.append_assoc]
    · rcases List.mem_append.mp he with he | he
      · exact hplain e he hk
      · exact hplain' e he hk

/-- A connection that the task of a job held has been closed once the task is gone. -/
theorem finishes_of_gone {w w' : World} {entries : List Entry}
    (htrace : w'.trace = w.trace ++ entries) (hok : WorldOk w) (hattr : w.Attributed)
    (hok' : WorldOk w') (hattr' : w'.Attributed) {k : Int} {conn : Nat}
    (hheld : w.heldConn k = some conn)
    (hgone : w'.tasks.lookup k = none) : w'.finishes conn = 1 := by
  obtain ⟨hlog, -⟩ := hok.conns.live k conn hheld
  obtain ⟨e, he, hev⟩ := List.mem_flatMap.mp hlog
  have hjob : k = e.jobId := hattr e he (.acquire conn) hev k hheld
  have he' : e ∈ w'.trace := by rw [htrace]; exact List.mem_append_left _ he
  rcases hok'.conns.returned conn (mem_connLog he' hev) with ⟨k', hk'⟩ | hone
  · -- whoever held it now would be the same job's task
    have hsame : k' = k := (hattr' e he' (.acquire conn) hev k' hk').trans hjob.symm
    rw [hsame, World.heldConn, hgone] at hk'
    exact absurd hk' (by simp)
  · rw [← count_release_connLog]
    exact hone

/-- The statements of a run only grow. -/
theorem statements_grow {w w' : World} {entries : List Entry}
    (htrace : w'.trace = w.trace ++ entries) (r : Int) :
    statements (w.calls r) <+: statements (w'.calls r) := by
  rw [World.calls, World.calls, log_append htrace, List.map_append, statements_append]
  exact List.prefix_append _ _

/-- The job of a run is written in its first statement. -/
theorem begun_jobId {r jobId jobId' : Int} {sql sql' : List Call} (h : Begun r jobId sql)
    (h' : Begun r jobId' sql') (hgrows : sql <+: sql') : jobId = jobId' := by
  obtain ⟨database, userName, startTime, hsql⟩ := h
  obtain ⟨database', userName', startTime', hsql'⟩ := h'
  have hhead : sql.head? = some (.insertRun r jobId database userName startTime) := by
    rcases hsql with rfl | ⟨pid, rfl⟩ <;> rfl
  have hhead' : sql'.head? = some (.insertRun r jobId' database' userName' startTime') := by
    rcases hsql' with rfl | ⟨pid, rfl⟩ <;> rfl
  obtain ⟨more, rfl⟩ := hgrows
  rw [List.head?_append, hhead, Option.some_or, Option.some.injEq, Call.insertRun.injEq] at hhead'
  exact hhead'.2.1

/-- A run that the task of a job was in is over once the task is gone. -/
theorem over_of_gone {history : History} {w w' : World} {entries : List Entry}
    (htrace : w'.trace = w.trace ++ entries) (h : HistoryOk history w)
    (h' : HistoryOk history w') {k r : Int} {task : CronTask}
    (hlookup : w.tasks.lookup k = some task) (hopen : task.openRun = some r)
    (hgone : w'.tasks.lookup k = none) :
    Begun r k (statements (w.calls r)) ∧ Over r (w'.calls r) := by
  have hunder : Underway task (w.calls r) := h.recorded.opened k task r hlookup hopen
  have hrun := runId_of_openRun hopen
  have hbegun : Begun r k (statements (w.calls r)) := by
    rw [← (h.ok.tasks k task hlookup).keyed, ← hrun]
    rw [← hrun] at hunder
    exact hunder.begun
  refine ⟨hbegun, ?_⟩
  have hstarted : .acquire r ∈ w.runLog :=
    started_of_heldRun h.ok (k := k) (by rw [heldRun_of_lookup hlookup, hopen])
  have hstarted' : r ∈ w'.inserted := by
    rw [mem_inserted, World.runLog, htrace, List.flatMap_append]
    exact List.mem_append_left _ hstarted
  rcases h'.run_cases hstarted' with ⟨k', task', hlookup', hopen', hunder'⟩ | ⟨-, hover⟩
  · -- a task that is still in the run would be the task of the same job
    have hrun' := runId_of_openRun hopen'
    have hbegun' := hunder'.begun
    rw [hrun', (h'.ok.tasks k' task' hlookup').keyed] at hbegun'
    have hsame := begun_jobId hbegun hbegun' (statements_grow htrace r)
    rw [← hsame, hgone] at hlookup'
    exact absurd hlookup' (by simp)
  · exact hover

/-! ### Removed jobs -/

/-- **Removed jobs are cleaned up.**  In every state a worker reaches, its tasks are active
    exactly if their jobs are loaded.  Once a job is gone, and while no reload brings it back:
    two calls of `ManageCronTask` remove its task, from whatever state; no run, no connection
    and no command is started for it; and when the task is gone, the connection it had is closed
    and the run it was in is over, each by a single call. -/
theorem removedJob_cleaned (statementTimeout : StatementTimeout) (history : History)
    (ls : List Label) :
    let w := Machine.run World.step (World.launch statementTimeout history) ls
    w.ActiveMatches ∧ ∀ k, getCronJob w.jobs k = none → ∀ ms, (∀ l ∈ ms, l.leavesOut k) →
      let w' := Machine.run World.step w ms
      (2 ≤ ms.countP (Label.isTurn k) → w'.tasks.lookup k = none) ∧
      (∃ entries, w'.trace = w.trace ++ entries ∧
        ∀ e ∈ entries, e.jobId = k → e.call.isPlain = true) ∧
      (w'.tasks.lookup k = none → ∀ task, w.tasks.lookup k = some task →
        (∀ conn, task.conn = some conn → w.finishes conn = 0 ∧ w'.finishes conn = 1) ∧
        ∀ r, task.openRun = some r →
          Begun r k (statements (w.calls r)) ∧ Over r (w'.calls r)) := by
  obtain ⟨-, hactive⟩ := reached_active statementTimeout history ls
  refine ⟨hactive, fun k hjob ms hleaves => ?_⟩
  have hhistory := historyOk_run statementTimeout history ls
  have hhistory' := historyOk_run statementTimeout history (ls ++ ms)
  obtain ⟨-, hattr⟩ := reached statementTimeout history ls
  obtain ⟨-, hattr'⟩ := reached statementTimeout history (ls ++ ms)
  rw [Machine.run_append] at hhistory' hattr'
  generalize Machine.run World.step (World.launch statementTimeout history) ls = w at *
  have hok := hhistory.ok
  -- by the first part the task of the missing job is inactive
  have hwinding : Winding k 0 w := by
    refine ⟨hjob, fun task hlookup => ⟨?_, by omega, by omega⟩⟩
    have hmatch := hactive k task hlookup
    rw [(hok.tasks k task hlookup).keyed, hjob] at hmatch
    simpa using hmatch
  obtain ⟨entries, htrace, hplain⟩ := plain_run ms hwinding hok hleaves
  refine ⟨fun htwo => ?_, ⟨entries, htrace, hplain⟩, fun hgone task hlookup => ⟨?_, ?_⟩⟩
  · have hrun := hwinding.run ms hok hleaves
    by_contra hsome
    obtain ⟨task, hlookup⟩ := Option.ne_none_iff_exists'.mp hsome
    have hle := (hrun.task task hlookup).2.1
    omega
  · intro conn hconn
    have hheld : w.heldConn k = some conn := by rw [heldConn_of_lookup hlookup, hconn]
    exact ⟨finishes_of_held hok hheld,
      finishes_of_gone htrace hok hattr hhistory'.ok hattr' hheld hgone⟩
  · intro r hopen
    exact over_of_gone htrace hhistory hhistory' hlookup hopen hgone

/-- The jobs table has become empty. -/
def noJobs : ReloadSource where
  recoveryInProgress := false
  cronLoaded := true
  table := ⟨[], List.nodup_nil⟩
  entry _ := clearedEntry

/-- The job of a running query is deleted. -/
def deletedRun : List Label :=
  rereadRun (secondsRow (ascii "alice") (ascii "SELECT 1"))
    (secondsRow (ascii "alice") (ascii "SELECT 1")) ++ [.reload noJobs 7000000]

/-- Two steps of its task. -/
def twoTurns : List Label :=
  [.manage 7 7000000 0 smoothReplies, .wait (readyWait 7000000),
    .manage 7 8000000 0 smoothReplies]

/-- The theorem at a job that is deleted while its query is running. -/
theorem removedJob_cleaned_running :
    let w := Machine.run World.step (World.launch defaultTimeout emptyHistory) deletedRun
    (w.tasks.lookup 7).isSome = true ∧
      (Machine.run World.step w twoTurns).tasks.lookup 7 = none ∧
      ∃ entries, (Machine.run World.step w twoTurns).trace = w.trace ++ entries ∧
        ∀ e ∈ entries, e.jobId = 7 → e.call.isPlain = true := by
  intro w
  have hcleaned := (removedJob_cleaned defaultTimeout emptyHistory deletedRun).2 7
    (by decide +kernel) twoTurns (by simp [twoTurns, Label.leavesOut])
  exact ⟨by decide +kernel, hcleaned.1 (by decide), hcleaned.2.1⟩

end NedoCron
