import NedoCron.ErrorText

namespace NedoCron

/-!
# nedo_cron — the event set of a wait

`WaitForEvent` builds a `WaitEventSet` for the latch, the postmaster and the sockets of the tasks
under way, waits on it, and marks the tasks whose events it gets back.  A set has room for the
number of events given at its creation and no more; `Worker.lean` leaves it out, and only says
which sockets are ready.

* `WaitEventSet` — the set, with what it has room for;
* `World.waitOnEventSet` — `WaitForEvent` with its set;
* `World.watchedSockets` — the sockets that a wait is about;
* `waitForEvent_eventSet` — the set never overflows, watches these sockets and no others, and the
  tasks after the wait are those of `World.waitForEvent`.
-/

/-! ### Event sets -/

/-- A `WaitEvent`; the `user_data` of a socket is a task, named by its job. -/
inductive WaitEvent where
  /-- `WL_LATCH_SET` -/
  | latch
  /-- `WL_POSTMASTER_DEATH` -/
  | postmasterDeath
  | socket (events : SocketEvent) (socket : Int) (userData : Int)
  deriving DecidableEq

/-- `user_data`. -/
def WaitEvent.userData : WaitEvent → Option Int
  | .socket _ _ jobId => some jobId
  | _ => none

/-- A `WaitEventSet`. -/
structure WaitEventSet where
  maxEvents : Nat
  events : List WaitEvent
  fits : events.length ≤ maxEvents

/-- `CreateWaitEventSet`. -/
def createWaitEventSet (maxEvents : Nat) : WaitEventSet where
  maxEvents := maxEvents
  events := []
  fits := Nat.zero_le _

/-- `AddWaitEventToSet`; to add an event to a full set is undefined. -/
def addWaitEventToSet (set : WaitEventSet) (event : WaitEvent) : Option WaitEventSet :=
  if h : set.events.length < set.maxEvents then
    some
      { set with
        events := set.events ++ [event]
        fits := by rw [List.length_append]; exact h }
  else none

/-- What the functions called during a wait on a set return. -/
structure WaitSetReplies where
  /-- `GetCurrentTimestamp` -/
  timestamp : Int
  /-- `PQsocket` -/
  socket : Nat → Int
  /-- the events that `WaitEventSetWait` stores -/
  wait : WaitEventSet → List WaitEvent
  /-- what an undefined conversion of a format leaves in the buffer -/
  leftover : CString

/-- The same replies, with what is said of the readiness of the sockets. -/
def WaitSetReplies.replies (io : WaitSetReplies) (ready : Int → Bool) : WaitReplies where
  timestamp := io.timestamp
  socket := io.socket
  ready := ready
  leftover := io.leftover

/-! ### The wait -/

/-- Registering the socket of one task. -/
def addTask (io : WaitSetReplies) (jobId : Int) (task : CronTask) (set : WaitEventSet) :
    Option (CronTask × WaitEventSet) :=
  if taskNeedsSocketWait task = false then some (task, set)
  else match taskWaitEvents task with
    | none => some (task, set)
    | some waitEvents =>
      match task.conn with
      | none =>
        some (task.fail io.leftover (ascii "[my_nedo_cron] connection is NULL, job_id: %ld")
          [.int task.jobId], set)
      | some conn =>
        if io.socket conn < 0 then
          some ({ task.fail io.leftover
              (ascii "[my_nedo_cron] connection socket < 0, job_id: %ld") [.int task.jobId] with
            pollingStatus := .reading }, set)
        else
          (addWaitEventToSet set (.socket waitEvents (io.socket conn) jobId)).map
            fun set => (task, set)

/-- The loop that registers the sockets of all tasks. -/
def addTasks (io : WaitSetReplies) :
    List Int → Table Int CronTask → WaitEventSet → Option (Table Int CronTask × WaitEventSet)
  | [], tasks, set => some (tasks, set)
  | jobId :: jobIds, tasks, set =>
    match tasks.lookup jobId with
    | none => addTasks io jobIds tasks set
    | some task =>
      (addTask io jobId task set).bind fun r =>
        addTasks io jobIds (Table.adjust jobId (fun _ => r.1) tasks) r.2

/-- The loop over the events that have occurred; `none` is `proc_exit`. -/
def handleEvents (tasks : Table Int CronTask) : List WaitEvent → Option (Table Int CronTask)
  | [] => some tasks
  | .latch :: events => handleEvents tasks events
  | .postmasterDeath :: _ => none
  | .socket _ _ jobId :: events =>
    handleEvents (Table.adjust jobId (fun task => { task with isSocketReady := true }) tasks) events

/-- `WaitForEvent`: undefined if the set overflows; otherwise the tasks after the wait, or `none`
    if the postmaster has died. -/
def World.waitOnEventSet (w : World) (io : WaitSetReplies) :
    Option (Option (Table Int CronTask)) :=
  let tasks := w.unreadyTasks
  if calculateWaitTimeout w.jobs (tasks.entries.map fun e => e.2) io.timestamp = 0 then
    some (some tasks)
  else
    let maxEvents := tasks.keys.length + 2
    (addWaitEventToSet (createWaitEventSet maxEvents) .latch).bind fun set =>
      (addWaitEventToSet set .postmasterDeath).bind fun set =>
        (addTasks io tasks.keys tasks set).map fun r => handleEvents r.1 (io.wait r.2)

/-- What is watched for a task: the socket of its connection, if it has a valid one and waits for
    it. -/
def WaitSetReplies.watched (io : WaitSetReplies) (jobId : Int) (task : CronTask) :
    Option WaitEvent :=
  if taskNeedsSocketWait task then
    (taskWaitEvents task).bind fun waitEvents =>
      task.conn.bind fun conn =>
        if io.socket conn < 0 then none
        else some (.socket waitEvents (io.socket conn) jobId)
  else none

/-- What is watched for the tasks of a list of jobs. -/
def WaitSetReplies.watchedOf (io : WaitSetReplies) (tasks : Table Int CronTask)
    (jobIds : List Int) : List WaitEvent :=
  jobIds.filterMap fun jobId => (tasks.lookup jobId).bind (io.watched jobId)

/-- The sockets that a wait is about. -/
def World.watchedSockets (w : World) (io : WaitSetReplies) : List WaitEvent :=
  io.watchedOf w.unreadyTasks w.unreadyTasks.keys

/-- The jobs whose sockets are among the events. -/
def readyIn (events : List WaitEvent) (jobId : Int) : Bool :=
  events.any fun event => decide (event.userData = some jobId)

/-! ### The set -/

/-- There is room for the event. -/
theorem addWaitEventToSet_of_lt (set : WaitEventSet) (event : WaitEvent)
    (h : set.events.length < set.maxEvents) :
    ∃ set', addWaitEventToSet set event = some set' ∧ set'.maxEvents = set.maxEvents ∧
      set'.events = set.events ++ [event] := by
  unfold addWaitEventToSet
  rw [dif_pos h]
  exact ⟨_, rfl, rfl, rfl⟩

/-- **One task** is registered as `registerTask` says, if there is room. -/
theorem addTask_eq (io : WaitSetReplies) (jobId : Int) (task : CronTask) (set : WaitEventSet)
    (h : set.events.length < set.maxEvents) (ready : Int → Bool) :
    ∃ set', addTask io jobId task set = some ((registerTask (io.replies ready) task).1, set') ∧
      set'.maxEvents = set.maxEvents ∧
      set'.events = set.events ++ (io.watched jobId task).toList := by
  unfold addTask registerTask WaitSetReplies.watched
  -- a task is added if it waits for its socket and the socket is valid
  cases hneeds : taskNeedsSocketWait task with
  | false =>
    rw [if_pos rfl, if_pos (Or.inl rfl), if_neg (by decide)]
    exact ⟨set, rfl, rfl, (List.append_nil _).symm⟩
  | true =>
    rw [if_neg (by decide), if_pos rfl]
    cases hevents : taskWaitEvents task with
    | none =>
      rw [if_pos (Or.inr rfl)]
      exact ⟨set, rfl, rfl, (List.append_nil _).symm⟩
    | some waitEvents =>
      rw [if_neg (by simp)]
      cases hconn : task.conn with
      | none => exact ⟨set, rfl, rfl, (List.append_nil _).symm⟩
      | some conn =>
        dsimp only [Option.bind]
        by_cases hsocket : io.socket conn < 0
        · have hsocket' : (io.replies ready).socket conn < 0 := hsocket
          rw [if_pos hsocket, if_pos hsocket', if_pos hsocket]
          exact ⟨set, rfl, rfl, (List.append_nil _).symm⟩
        · have hsocket' : ¬(io.replies ready).socket conn < 0 := hsocket
          obtain ⟨set', hadd, hmax, hadded⟩ :=
            addWaitEventToSet_of_lt set (.socket waitEvents (io.socket conn) jobId) h
          rw [if_neg hsocket, if_neg hsocket', if_neg hsocket, hadd]
          exact ⟨set', rfl, hmax, hadded⟩

/-- What is watched depends on the tasks of the jobs only. -/
theorem watchedOf_congr {io : WaitSetReplies} {tasks tasks' : Table Int CronTask}
    {jobIds : List Int} (h : ∀ k ∈ jobIds, tasks'.lookup k = tasks.lookup k) :
    io.watchedOf tasks' jobIds = io.watchedOf tasks jobIds :=
  List.filterMap_congr fun k hk => by rw [h k hk]

/-- **All tasks.**  With room for each, every task is registered, and the set gets what is watched
    for them. -/
theorem addTasks_eq (io : WaitSetReplies) (ready : Int → Bool) {jobIds : List Int}
    (hnodup : jobIds.Nodup) (tasks : Table Int CronTask) (set : WaitEventSet)
    (h : set.events.length + jobIds.length ≤ set.maxEvents) :
    ∃ tasks' set', addTasks io jobIds tasks set = some (tasks', set') ∧
      set'.maxEvents = set.maxEvents ∧
      set'.events = set.events ++ io.watchedOf tasks jobIds ∧
      (∀ k, k ∈ jobIds → tasks'.lookup k =
        (tasks.lookup k).map fun task => (registerTask (io.replies ready) task).1) ∧
      ∀ k, k ∉ jobIds → tasks'.lookup k = tasks.lookup k := by
  induction jobIds generalizing tasks set with
  | nil =>
    -- no task, no event
    refine ⟨tasks, set, rfl, rfl, (List.append_nil _).symm, fun k hk => ?_, fun k _ => rfl⟩
    exact absurd hk List.not_mem_nil
  | cons jobId jobIds ih =>
    obtain ⟨hnot, hnodup⟩ := List.nodup_cons.mp hnodup
    rw [List.length_cons] at h
    unfold addTasks
    cases hlookup : tasks.lookup jobId with
    | none =>
      -- a task that is gone adds nothing
      obtain ⟨tasks', set', hadd, hmax, hevents, hin, hout⟩ :=
        ih hnodup tasks set (by omega)
      refine ⟨tasks', set', hadd, hmax, ?_, fun k hk => ?_, fun k hk => ?_⟩
      · rw [hevents]
        unfold WaitSetReplies.watchedOf
        rw [List.filterMap_cons_none (by rw [hlookup]; rfl)]
      · rcases List.mem_cons.mp hk with hhead | htail
        · rw [hhead, hout _ hnot, hlookup]
          rfl
        · exact hin k htail
      · exact hout k fun hmem => hk (List.mem_cons_of_mem _ hmem)
    | some task =>
      obtain ⟨set₁, hadd₁, hmax₁, hevents₁⟩ := addTask_eq io jobId task set
        (by omega) ready
      have hone : (io.watched jobId task).toList.length ≤ 1 := by
        cases io.watched jobId task <;> simp
      dsimp only
      rw [hadd₁]
      obtain ⟨tasks', set', hadd, hmax, hevents, hin, hout⟩ := ih hnodup
        (Table.adjust jobId (fun _ => (registerTask (io.replies ready) task).1) tasks) set₁
        (by rw [hevents₁, List.length_append, hmax₁]; omega)
      refine ⟨tasks', set', hadd, hmax.trans hmax₁, ?_, fun k hk => ?_, fun k hk => ?_⟩
      · -- the rest of the loop watches the same sockets
        have hrest : io.watchedOf
            (Table.adjust jobId (fun _ => (registerTask (io.replies ready) task).1) tasks) jobIds =
            io.watchedOf tasks jobIds :=
          watchedOf_congr fun k hk => Table.lookup_adjust_ne (ne_of_mem_of_not_mem hk hnot) _ _
        rw [hevents, hevents₁, hrest, List.append_assoc]
        unfold WaitSetReplies.watchedOf
        rw [List.filterMap_cons, hlookup]
        cases hwatched : io.watched jobId task with
        | none => simp [hwatched]
        | some event => simp [hwatched]
      · by_cases hhead : k = jobId
        · rw [hhead, hout _ hnot, Table.lookup_adjust_self, hlookup]
          rfl
        · have htail := (List.mem_cons.mp hk).resolve_left hhead
          rw [hin k htail, Table.lookup_adjust_ne hhead]
      · obtain ⟨hhead, htail⟩ := not_or.mp fun hmem => hk (List.mem_cons.mpr hmem)
        rw [hout k htail, Table.lookup_adjust_ne hhead]

/-- A watched event carries the task it is for. -/
theorem watched_userData {io : WaitSetReplies} {jobId : Int} {task : CronTask} {event : WaitEvent}
    (h : io.watched jobId task = some event) : event.userData = some jobId := by
  unfold WaitSetReplies.watched at h
  by_cases hneeds : taskNeedsSocketWait task = true
  · rw [if_pos hneeds] at h
    obtain ⟨waitEvents, -, h⟩ := Option.bind_eq_some_iff.mp h
    obtain ⟨conn, -, h⟩ := Option.bind_eq_some_iff.mp h
    by_cases hsocket : io.socket conn < 0
    · rw [if_pos hsocket] at h
      cases h
    · rw [if_neg hsocket] at h
      rw [← Option.some.inj h]
      rfl
  · rw [if_neg hneeds] at h
    cases h

/-- A watched task is registered. -/
theorem registerTask_of_watched {io : WaitSetReplies} {jobId : Int} {task : CronTask}
    {event : WaitEvent} (h : io.watched jobId task = some event) (ready : Int → Bool) :
    (registerTask (io.replies ready) task).2.1 = true := by
  unfold WaitSetReplies.watched at h
  by_cases hneeds : taskNeedsSocketWait task = true
  · rw [if_pos hneeds] at h
    obtain ⟨waitEvents, hevents, h⟩ := Option.bind_eq_some_iff.mp h
    obtain ⟨conn, hconn, h⟩ := Option.bind_eq_some_iff.mp h
    by_cases hsocket : io.socket conn < 0
    · rw [if_pos hsocket] at h
      cases h
    · have hsocket' : ¬(io.replies ready).socket conn < 0 := hsocket
      unfold registerTask
      rw [if_neg (by simp [hneeds, hevents]), hconn]
      dsimp only
      rw [if_neg hsocket']
  · rw [if_neg hneeds] at h
    cases h

/-- A task that a watched event carries is watched. -/
theorem watched_of_mem {io : WaitSetReplies} {tasks : Table Int CronTask} {jobIds : List Int}
    {event : WaitEvent} {k : Int} (hmem : event ∈ io.watchedOf tasks jobIds)
    (hdata : event.userData = some k) :
    ∃ task, tasks.lookup k = some task ∧ io.watched k task = some event := by
  obtain ⟨jobId, -, hbind⟩ := List.mem_filterMap.mp hmem
  obtain ⟨task, hlookup, hwatched⟩ := Option.bind_eq_some_iff.mp hbind
  have heq : jobId = k := Option.some.inj ((watched_userData hwatched).symm.trans hdata)
  subst heq
  exact ⟨task, hlookup, hwatched⟩

/-- A task whose socket is ready only if it is registered. -/
theorem awaitTask_registered (io : WaitReplies) (jobId : Int) (task : CronTask)
    (h : io.ready jobId = true → (registerTask io task).2.1 = true) :
    awaitTask io jobId task =
      if io.ready jobId then { (registerTask io task).1 with isSocketReady := true }
      else (registerTask io task).1 := by
  unfold awaitTask
  dsimp only
  cases hready : io.ready jobId with
  | false => rw [Bool.and_false]
  | true => rw [h hready, Bool.and_self]

/-! ### The events -/

/-- The death of the postmaster ends the loop over the events. -/
theorem handleEvents_death {tasks : Table Int CronTask} {events : List WaitEvent}
    (h : .postmasterDeath ∈ events) : handleEvents tasks events = none := by
  induction events generalizing tasks with
  | nil => exact absurd h List.not_mem_nil
  | cons event events ih =>
    cases event with
    | latch => exact ih ((List.mem_cons.mp h).resolve_left (by decide))
    | postmasterDeath => rfl
    | socket waitEvents socket jobId =>
      exact ih ((List.mem_cons.mp h).resolve_left (fun heq => by cases heq))

/-- Without news of the postmaster, the tasks whose sockets are among the events are marked. -/
theorem handleEvents_eq (tasks : Table Int CronTask) {events : List WaitEvent}
    (h : .postmasterDeath ∉ events) :
    ∃ tasks', handleEvents tasks events = some tasks' ∧
      ∀ k, tasks'.lookup k = (tasks.lookup k).map fun task =>
        if readyIn events k then { task with isSocketReady := true } else task := by
  induction events generalizing tasks with
  | nil => exact ⟨tasks, rfl, fun k => Option.map_id'.symm⟩
  | cons event events ih =>
    obtain ⟨hhead, htail⟩ := not_or.mp fun hmem => h (List.mem_cons.mpr hmem)
    cases event with
    | latch => exact ih tasks htail
    | postmasterDeath => exact absurd rfl hhead
    | socket waitEvents socket jobId =>
      obtain ⟨tasks', hhandled, hlookup⟩ := ih _ htail
      refine ⟨tasks', hhandled, fun k => ?_⟩
      have hready : readyIn (.socket waitEvents socket jobId :: events) k =
          (decide (jobId = k) || readyIn events k) := by
        unfold readyIn
        rw [List.any_cons]
        simp [WaitEvent.userData]
      rw [hlookup, hready]
      by_cases hk : k = jobId
      · subst hk
        rw [Table.lookup_adjust_self]
        cases tasks.lookup k <;> simp
      · rw [Table.lookup_adjust_ne hk, decide_eq_false fun heq => hk heq.symm, Bool.false_or]

/-! ### The wait on the set -/

/-- The set that `WaitForEvent` waits on. -/
theorem waitOnEventSet_eq (w : World) (io : WaitSetReplies) :
    ∃ (set : WaitEventSet) (tasks : Table Int CronTask),
      set.maxEvents = w.tasks.keys.length + 2 ∧
      set.events = .latch :: .postmasterDeath :: w.watchedSockets io ∧
      (∀ ready k, tasks.lookup k =
        (w.unreadyTasks.lookup k).map fun task => (registerTask (io.replies ready) task).1) ∧
      ∀ ready, w.waitOnEventSet io =
        if w.waitTimeout (io.replies ready) = 0 then some (some w.unreadyTasks)
        else some (handleEvents tasks (io.wait set)) := by
  have hkeys : w.unreadyTasks.keys = w.tasks.keys := Table.keys_mapEntries _ _
  -- the latch and the postmaster come first
  obtain ⟨set₁, hadd₁, hmax₁, hevents₁⟩ := addWaitEventToSet_of_lt
    (createWaitEventSet (w.unreadyTasks.keys.length + 2)) .latch (Nat.succ_pos _)
  obtain ⟨set₂, hadd₂, hmax₂, hevents₂⟩ := addWaitEventToSet_of_lt set₁ .postmasterDeath
    (by rw [hevents₁, hmax₁]; exact Nat.succ_lt_succ (Nat.succ_pos _))
  have hroom : set₂.events.length + w.unreadyTasks.keys.length ≤ set₂.maxEvents := by
    rw [hevents₂, hevents₁, hmax₂, hmax₁]
    exact le_of_eq (Nat.add_comm _ _)
  obtain ⟨tasks, set, hadd, hmax, hevents, -, -⟩ := addTasks_eq io (fun _ => false)
    w.unreadyTasks.keys_nodup w.unreadyTasks set₂ hroom
  refine ⟨set, tasks, ?_, ?_, fun ready k => ?_, fun ready => ?_⟩
  · rw [hmax, hmax₂, hmax₁, ← hkeys]
    rfl
  · rw [hevents, hevents₂, hevents₁]
    rfl
  · -- which sockets are ready has no part in what is added
    obtain ⟨tasks', set', hadd', -, -, hin, hout⟩ := addTasks_eq io ready
      w.unreadyTasks.keys_nodup w.unreadyTasks set₂ hroom
    obtain rfl : tasks' = tasks := congrArg Prod.fst (Option.some.inj (hadd'.symm.trans hadd))
    by_cases hk : k ∈ w.unreadyTasks.keys
    · exact hin k hk
    · rw [hout k hk, AList.lookup_eq_none.mpr hk]
      rfl
  · unfold World.waitOnEventSet
    show (if w.waitTimeout (io.replies ready) = 0 then _ else _) = _
    split
    · rfl
    · dsimp only
      rw [hadd₁, Option.bind_some, hadd₂, Option.bind_some, hadd]
      rfl

/-- **The event set.**  The set of `WaitForEvent` has room for what is added to it: the latch, the
    postmaster and the sockets of the tasks that wait for one.  If the wait tells of the death of
    the postmaster the worker exits; otherwise the tasks are those of `World.waitForEvent`, where
    the ready sockets are those whose events came back. -/
theorem waitForEvent_eventSet (w : World) (io : WaitSetReplies)
    (hstored : ∀ set, io.wait set ⊆ set.events) :
    ∃ set : WaitEventSet, set.maxEvents = w.tasks.keys.length + 2 ∧
      set.events = .latch :: .postmasterDeath :: w.watchedSockets io ∧
      (w.waitTimeout (io.replies (readyIn (io.wait set))) ≠ 0 ∧ .postmasterDeath ∈ io.wait set →
        w.waitOnEventSet io = some none) ∧
      (w.waitTimeout (io.replies (readyIn (io.wait set))) = 0 ∨
          .postmasterDeath ∉ io.wait set →
        ∃ tasks, w.waitOnEventSet io = some (some tasks) ∧ ∀ k, tasks.lookup k =
          (w.waitForEvent (io.replies (readyIn (io.wait set)))).tasks.lookup k) := by
  obtain ⟨set, tasks, hmax, hevents, hregistered, houtcome⟩ := waitOnEventSet_eq w io
  refine ⟨set, hmax, hevents, fun ⟨htime, hdeath⟩ => ?_, fun halive => ?_⟩
  · rw [houtcome (readyIn (io.wait set)), if_neg htime, handleEvents_death hdeath]
  · rw [houtcome (readyIn (io.wait set))]
    unfold World.waitForEvent
    by_cases htime : w.waitTimeout (io.replies (readyIn (io.wait set))) = 0
    · rw [if_pos htime]
      exact ⟨_, rfl, fun k => by rw [if_pos htime]⟩
    · rw [if_neg htime]
      obtain ⟨tasks', hhandled, hmarked⟩ := handleEvents_eq tasks
        (halive.resolve_left htime)
      refine ⟨tasks', congrArg some hhandled, fun k => ?_⟩
      rw [if_neg htime, hmarked, hregistered (readyIn (io.wait set)) k, Table.lookup_mapEntries]
      cases hlookup : w.unreadyTasks.lookup k with
      | none => rfl
      | some task =>
        -- an event that came back for the job is one that was added for it
        refine congrArg some
          (awaitTask_registered (io.replies (readyIn (io.wait set))) k task fun hready => ?_).symm
        obtain ⟨event, hmem, hdata⟩ := List.any_eq_true.mp hready
        have hdata := of_decide_eq_true hdata
        have hadded := hstored set hmem
        rw [hevents] at hadded
        have hsocket : event ∈ w.watchedSockets io := by
          rcases List.mem_cons.mp hadded with rfl | hadded
          · cases hdata
          · rcases List.mem_cons.mp hadded with rfl | hadded
            · cases hdata
            · exact hadded
        obtain ⟨task', hlookup', hwatched⟩ := watched_of_mem hsocket hdata
        obtain rfl : task' = task := Option.some.inj (hlookup'.symm.trans hlookup)
        exact registerTask_of_watched hwatched _

/-- A worker whose only run has a query under way. -/
def queryingWorld : World :=
  { World.launch defaultTimeout emptyHistory with
    tasks := AList.insert 7 { readyTask with runDeadline := 16000000 } ∅ }

/-- Every socket that is watched is ready. -/
def readySockets : WaitSetReplies where
  timestamp := 6000000
  socket := fun _ => 5
  wait := fun set => set.events.filter fun event => event.userData.isSome
  leftover := []

/-- The theorem at a query whose socket is ready. -/
theorem waitForEvent_eventSet_querying :
    ∃ set : WaitEventSet, set.events = [.latch, .postmasterDeath, .socket .readable 5 7] ∧
      ∃ tasks, queryingWorld.waitOnEventSet readySockets = some (some tasks) ∧
        ∀ k, tasks.lookup k = (queryingWorld.waitForEvent
          (readySockets.replies (readyIn (readySockets.wait set)))).tasks.lookup k := by
  obtain ⟨set, -, hevents, -, halive⟩ := waitForEvent_eventSet queryingWorld readySockets
    (fun _ => List.filter_sublist.subset)
  have hnone : WaitEvent.postmasterDeath ∉ readySockets.wait set := fun hmem => by
    have hdata := (List.mem_filter.mp hmem).2
    cases hdata
  exact ⟨set, hevents.trans (by decide), halive (Or.inr hnone)⟩

end NedoCron
