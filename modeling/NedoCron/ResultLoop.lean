import NedoCron.ErrorText

namespace NedoCron

/-!
# nedo_cron — the loop over the results

`PQisBusy` is asked once, before the first result is fetched; the loop then fetches results
until `NULL` comes or one of them fails the run, and `PQgetResult` blocks while the next one
has not arrived.

* `reachesBusyTest` — the steps that come to `PQisBusy`;
* `allArrived` — every result the loop would fetch has arrived;
* `neverBlocks_iff` — the step fetches nothing that has not arrived, and waits for it in
  RUNNING, exactly if all has arrived by the time the loop is entered.
-/

/-! ### Entering the loop -/

/-- The step comes to the test of `PQisBusy`: the job is loaded and active, the connection is
    usable, an overdue query has been cancelled, and input has been read from the socket. -/
def reachesBusyTest (context : StepContext) (task : CronTask) (io : Replies) : Bool :=
  context.job.isSome && decide (task.state = .running) && task.isActive &&
    !connectionBad task.conn io &&
    (!task.overdue context.currentTime || (io.getCancel && decide (io.cancel ≠ 0))) &&
    task.isSocketReady && decide (io.consumeInput = 1)

/-- Every result that would be fetched has arrived: those up to the first one that fails the
    run, or all of them and the end. -/
def allArrived (lastBusy : Bool) : List (QueryResult × Bool) → Bool
  | [] => !lastBusy
  | (result, busy) :: results => !busy && (result.status.fails || allArrived lastBusy results)

/-- The call is a `PQgetResult` that blocks. -/
def Call.blocks : Call → Bool
  | .getResult _ _ busy => busy
  | _ => false

/-- The call is a `PQgetResult`. -/
def Call.fetches : Call → Bool
  | .getResult _ _ _ => true
  | _ => false

/-- A step reads results without blocking: no `PQgetResult` is made before its result has
    arrived, and while some result that is due has not arrived, the task stays in RUNNING on its
    connection. -/
structure ReadsWithoutBlocking (context : StepContext) (task : CronTask) (io : Replies) :
    Prop where
  never : ∀ call ∈ (manageCronTask context task io).calls, call.blocks = false
  stays : reachesBusyTest context task io = true →
    io.isBusy = true ∨ allArrived io.lastBusy io.results = false →
    ∃ task', (manageCronTask context task io).fate = .kept task' ∧ task'.state = .running ∧
      task'.conn = task.conn

/-! ### The loop -/

/-- **The loop** makes no blocking call exactly if all that it fetches has arrived. -/
theorem readResults_neverBlocks_iff (conn : Option Nat) (leftover : CString) (lastBusy : Bool)
    (task : CronTask) (results : List (QueryResult × Bool)) :
    (∀ call ∈ (readResults conn leftover lastBusy task results).2, call.blocks = false) ↔
      allArrived lastBusy results = true := by
  induction results with
  | nil => simp [readResults, allArrived, Call.blocks]
  | cons r results ih =>
    obtain ⟨result, busy⟩ := r
    rw [readResults, allArrived]
    by_cases herror : result.status.isError = true
    -- a result that fails the run is the last one fetched
    · rw [if_pos herror]
      simp [Call.blocks, ExecStatus.fails, herror]
    · rw [if_neg herror]
      by_cases hcopy : result.status.isCopy = true
      · rw [if_pos hcopy]
        simp [Call.blocks, ExecStatus.fails, hcopy]
      · rw [if_neg hcopy]
        rw [List.forall_mem_cons, ih, Bool.and_eq_true, Bool.or_eq_true]
        simp [Call.blocks, ExecStatus.fails, herror, hcopy]

/-- Only a fetch can block. -/
theorem fetches_of_blocks {call : Call} (h : call.fetches = false) : call.blocks = false := by
  cases call with
  | getResult conn result busy => exact absurd h (by simp [Call.fetches])
  | _ => rfl

/-- Uses of a connection fetch nothing. -/
theorem fetches_uses {functions : List PqFunction} {conn : Option Nat} :
    ∀ call ∈ uses functions conn, call.fetches = false := by
  intro call hcall
  obtain ⟨f, -, rfl⟩ := List.mem_map.mp hcall
  rfl

/-! ### The step -/

variable {context : StepContext} {task : CronTask} {io : Replies}

/-- Nothing is fetched by the calls. -/
def fetchesNothing (calls : List Call) : Prop := ∀ call ∈ calls, call.fetches = false

theorem fetchesNothing_append {calls calls' : List Call} (h : fetchesNothing calls)
    (h' : fetchesNothing calls') : fetchesNothing (calls ++ calls') := by
  intro call hcall
  rcases List.mem_append.mp hcall with hcall | hcall
  · exact h call hcall
  · exact h' call hcall

/-- Reading input fetches nothing while the socket is not ready, and while the connection is
    busy. -/
theorem readInput_fetches {calls : List Call} (hcalls : fetchesNothing calls)
    (h : task.isSocketReady = true → io.consumeInput = 1 → io.isBusy = true) :
    fetchesNothing (readInput task io calls).calls := by
  unfold readInput
  split
  · exact hcalls
  · rename_i hready
    split
    · exact fetchesNothing_append hcalls fetches_uses
    · rename_i hconsume
      -- here the step is at the test, so the connection is busy
      rw [if_pos (h (by simpa using hready) (by simpa using hconsume))]
      exact fetchesNothing_append hcalls fetches_uses

/-- A RUNNING step fetches nothing unless it comes to the test and the connection is idle. -/
theorem manageRunning_fetches (hjob : context.job.isSome = true) (hstate : task.state = .running)
    (h : reachesBusyTest context task io = true → io.isBusy = true) :
    fetchesNothing (manageRunning task context.currentTime io).calls := by
  unfold manageRunning
  split
  · exact fun call hcall => absurd hcall (by simp [Turn.keep])
  · rename_i hactive
    split
    · exact fetches_uses
    · rename_i hbad
      split
      · rename_i hoverdue
        split
        · exact fetches_uses
        · rename_i hcancel
          split
          · exact fetches_uses
          · rename_i hfailed
            refine readInput_fetches fetches_uses fun hready hconsume => h ?_
            have hready' : task.isSocketReady = true := hready
            -- a cancel that goes through leads on to the test as well
            simp [reachesBusyTest, hjob, hstate, hactive, hbad, hcancel, hfailed, hready', hconsume]
      · rename_i hoverdue
        refine readInput_fetches fetches_uses fun hready hconsume => h ?_
        simp [reachesBusyTest, hjob, hstate, hactive, hbad, hoverdue, hready, hconsume]

/-- The error branch fetches nothing. -/
theorem manageError_fetches (task : CronTask) (io : Replies) :
    fetchesNothing (manageError task io).calls := by
  unfold manageError
  dsimp only
  apply fetchesNothing_append
  · split <;> simp [fetchesNothing, Call.fetches]
  · split <;> simp [fetchesNothing, Call.fetches]

/-- **A step** fetches nothing unless it comes to the test and the connection is idle. -/
theorem manageCronTask_fetches (h : reachesBusyTest context task io = true → io.isBusy = true) :
    fetchesNothing (manageCronTask context task io).calls := by
  -- none of the calls outside RUNNING asks for a result
  have hempty : fetchesNothing [] := fun call hcall => absurd hcall (by simp)
  have hone : ∀ {call : Call}, call.fetches = false → fetchesNothing [call] := by
    intro call hcall
    simpa [fetchesNothing] using hcall
  unfold manageCronTask
  cases hjob : context.job with
  | none =>
    cases hstate : task.state with
    | done => exact hempty
    | _ => exact manageError_fetches _ io
  | some job =>
    cases hstate : task.state with
    | waiting =>
      -- the states in the order of their code; each has its ways out
      show fetchesNothing (manageWaiting task).calls
      unfold manageWaiting
      split
      · exact hempty
      · split <;> exact hempty
    | start =>
      have hinsert : fetchesNothing [.insertRun context.newRunId job.jobId job.database
          job.userName io.timestamp, .connectStartParams
            (connectParams job context.statementTimeoutMs io.dbEncoding) (some context.newConn)] :=
        fetchesNothing_append (hone rfl) (hone rfl)
      show fetchesNothing (manageStart _ _ _ _ _ _ _).calls
      unfold manageStart
      dsimp only
      split
      · exact fetchesNothing_append (hone rfl) (hone rfl)
      · split
        · exact fetchesNothing_append hinsert fetches_uses
        · split <;> exact fetchesNothing_append hinsert fetches_uses
    | connecting =>
      show fetchesNothing (manageConnecting _ _ _).calls
      unfold manageConnecting
      split
      · exact hempty
      · split
        · exact hempty
        · split
          · exact fetches_uses
          · split
            · exact fetches_uses
            · split
              · exact fetchesNothing_append fetches_uses (hone rfl)
              · exact fetches_uses
              · exact fetches_uses
    | sending =>
      show fetchesNothing (manageSending _ _ _ _ _).calls
      unfold manageSending
      split
      · exact hempty
      · split
        · exact hempty
        · split
          · exact fetches_uses
          · split
            · exact fetches_uses
            · split
              · exact fetchesNothing_append fetches_uses (hone rfl)
              · exact fetchesNothing_append (fetchesNothing_append fetches_uses (hone rfl))
                  fetches_uses
    -- in RUNNING it depends on the one test
    | running => exact manageRunning_fetches (by rw [hjob]; rfl) hstate h
    | error => exact manageError_fetches task io
    | receiving => exact hempty
    | done => exact hempty

/-- **At the test** the task is still in RUNNING on its connection, and input is read. -/
theorem manageCronTask_atTest (h : reachesBusyTest context task io = true) :
    ∃ base functions, base.state = .running ∧ base.conn = task.conn ∧
      manageCronTask context task io =
        if io.isBusy then
          .keep base (uses functions task.conn ++ uses [.consumeInput, .isBusy] base.conn)
        else
          { finishRunning base io with
            calls := uses functions task.conn ++ uses [.consumeInput, .isBusy] base.conn ++
              (finishRunning base io).calls } := by
  simp only [reachesBusyTest, Bool.and_eq_true, decide_eq_true_eq, Bool.not_eq_true',
    Bool.or_eq_true] at h
  obtain ⟨⟨⟨⟨⟨⟨hjob, hstate⟩, hactive⟩, hbad⟩, hcancel⟩, hready⟩, hconsume⟩ := h
  obtain ⟨job, hjob⟩ := Option.isSome_iff_exists.mp hjob
  have hturn : manageCronTask context task io = manageRunning task context.currentTime io := by
    rw [manageCronTask, hjob, hstate]
  have hread : ∀ {base : CronTask} {calls : List Call}, base.isSocketReady = true →
      readInput base io calls =
        if io.isBusy then .keep base (calls ++ uses [.consumeInput, .isBusy] base.conn)
        else
          { finishRunning base io with
            calls := calls ++ uses [.consumeInput, .isBusy] base.conn ++
              (finishRunning base io).calls } := by
    intro base calls hbase
    rw [readInput, if_neg (by simp [hbase]), if_neg (by simp [hconsume])]
  rw [hturn, manageRunning, if_neg (by simp [hactive]), if_neg (by simp [hbad])]
  by_cases hoverdue : task.overdue context.currentTime = true
  · rw [if_pos hoverdue]
    rw [hoverdue] at hcancel
    -- an overdue query is read on only if its cancel went through
    have hcancel' := hcancel.resolve_left (by simp)
    rw [if_neg (by simp [hcancel'.1]), if_neg hcancel'.2]
    exact ⟨_, _, by exact hstate, by rfl, hread (by exact hready)⟩
  · rw [if_neg hoverdue]
    exact ⟨task, [.status], hstate, rfl, hread hready⟩

/-- The end of a run makes the calls of the loop. -/
theorem mem_finishRunning {task : CronTask} {io : Replies} {call : Call}
    (h : call ∈ (readResults task.conn io.leftover io.lastBusy task io.results).2) :
    call ∈ (finishRunning task io).calls := by
  unfold finishRunning
  dsimp only
  split <;> simp [Turn.keep, h]

/-- The end of a run makes no blocking call if all that is due has arrived. -/
theorem finishRunning_neverBlocks (task : CronTask)
    (harrived : allArrived io.lastBusy io.results = true) :
    ∀ call ∈ (finishRunning task io).calls, call.blocks = false := by
  have hread := (readResults_neverBlocks_iff task.conn io.leftover io.lastBusy task
    io.results).mpr harrived
  intro call hcall
  unfold finishRunning at hcall
  dsimp only at hcall
  split at hcall <;>
    simp only [Turn.keep, List.append_assoc, List.mem_append, List.mem_cons, List.not_mem_nil,
      or_false] at hcall
  · rcases hcall with hcall | rfl | rfl
    · exact hread call hcall
    · rfl
    · rfl
  · rcases hcall with hcall | rfl
    · exact hread call hcall
    · rfl

/-! ### Reading without blocking -/

/-- **Reading results.**  A step reads results without blocking exactly if, where it comes to
    the loop, every result that is due has arrived. -/
theorem readsWithoutBlocking_iff (context : StepContext) (task : CronTask) (io : Replies) :
    ReadsWithoutBlocking context task io ↔
      (reachesBusyTest context task io = true → io.isBusy = false →
        allArrived io.lastBusy io.results = true) := by
  constructor
  · intro h htest hidle
    -- the loop is entered, and none of its calls blocks
    obtain ⟨base, functions, -, -, hturn⟩ := manageCronTask_atTest htest
    refine (readResults_neverBlocks_iff base.conn io.leftover io.lastBusy base io.results).mp
      fun call hcall => h.never call ?_
    rw [hturn, hidle, if_neg (by simp)]
    exact List.mem_append_right _ (mem_finishRunning hcall)
  · intro h
    refine ⟨fun call hcall => ?_, fun htest hpending => ?_⟩
    -- outside of the loop nothing is fetched, and inside everything has arrived
    · by_cases hloop : reachesBusyTest context task io = true ∧ io.isBusy = false
      · obtain ⟨htest, hidle⟩ := hloop
        obtain ⟨base, functions, -, -, hturn⟩ := manageCronTask_atTest htest
        rw [hturn, hidle, if_neg (by simp)] at hcall
        rcases List.mem_append.mp hcall with hcall | hcall
        · exact fetches_of_blocks (fetchesNothing_append fetches_uses fetches_uses call hcall)
        · exact finishRunning_neverBlocks base (h htest hidle) call hcall
      · refine fetches_of_blocks (manageCronTask_fetches (fun htest => ?_) call hcall)
        simpa using fun hidle => hloop ⟨htest, hidle⟩
    -- all that is due has arrived when the test lets through, so it did not
    · have hbusy : io.isBusy = true := by
        rcases hpending with hbusy | hpending
        · exact hbusy
        · by_contra hidle
          rw [h htest (by simpa using hidle)] at hpending
          exact absurd hpending (by simp)
      obtain ⟨base, functions, hstate, hconn, hturn⟩ := manageCronTask_atTest htest
      refine ⟨base, ?_, hstate, hconn⟩
      rw [hturn, if_pos hbusy]
      rfl

/-- The first statement of a query has finished, the second one has not. -/
def secondStatementRuns : Replies :=
  { smoothReplies with
    isBusy := false
    results := [(⟨.commandOk, none, []⟩, false)]
    lastBusy := true }

/-- After the result of the first statement the loop waits for the second one. -/
theorem not_readsWithoutBlocking :
    ¬∀ (context : StepContext) (task : CronTask) (io : Replies),
      ReadsWithoutBlocking context task io := by
  intro hall
  have hnever := (hall readyContext readyTask secondStatementRuns).never
  have hcall : Call.getResult (some 0) none true ∈
      (manageCronTask readyContext readyTask secondStatementRuns).calls := by decide +kernel
  exact absurd (hnever _ hcall) (by decide)

end NedoCron
