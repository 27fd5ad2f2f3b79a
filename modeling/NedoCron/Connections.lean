import NedoCron.Invariant

namespace NedoCron

/-!
# nedo_cron — the life of a connection

What `WorldOk` says about the handles that `PQconnectStartParams` returns, with one more
fact: a handle is only ever held by the task it was opened for (`Attributed`).

* `attributed_step` — every step keeps a handle with its task;
* `connection_lifecycle` — every handle is closed exactly once and never used afterwards, and
  no assignment of `NULL` drops an open one.
-/

/-! ### Handles stay with their task -/

/-- Whoever holds a handle has made every call on it. -/
def World.Attributed (w : World) : Prop :=
  ∀ e ∈ w.trace, ∀ ev ∈ e.call.connEvents, ∀ k, w.heldConn k = some ev.handle → k = e.jobId

/-- Each event of a recorded call is in the log of the connections. -/
theorem mem_connLog {w : World} {e : Entry} {ev : Ledger.Event Nat} (he : e ∈ w.trace)
    (hev : ev ∈ e.call.connEvents) : ev ∈ w.connLog :=
  List.mem_flatMap.mpr ⟨e, he, hev⟩

/-- A wait uses a connection only for the task that holds it. -/
theorem attributed_wait {w : World} (hok : WorldOk w) (h : w.Attributed) (io : WaitReplies) :
    (w.waitForEvent io).Attributed := by
  obtain ⟨entries, htrace, hentries⟩ := trace_wait w io
  intro e he ev hev k hk
  rw [(wait_owns hok io).1] at hk
  rw [htrace] at he
  rcases List.mem_append.mp he with he | he
  · exact h e he ev hev k hk
  · -- the task uses its own connection, and nobody else holds it
    obtain ⟨task, conn, hold, -, hconn, -, hcall⟩ := hentries e he
    rw [hcall] at hev
    obtain rfl : ev = .use conn := by simpa [Call.connEvents] using hev
    have hown : w.heldConn e.jobId = some conn := by rw [heldConn_of_lookup hold, hconn]
    exact hok.conns.exclusive k e.jobId conn hk hown

/-- A turn uses the connection of its task or a fresh one, which nobody has called before. -/
theorem attributed_manage {w : World} (hok : WorldOk w) (h : w.Attributed)
    (jobId currentTime : Int) (gap : Nat) (io : Replies) :
    (w.manage jobId currentTime gap io).Attributed := by
  cases hold : w.tasks.lookup jobId with
  | none => rw [manage_none hold]; exact h
  | some task =>
    have howns := turn_owns_conn hok hold currentTime gap io
    have hfresh : ∀ e ∈ w.trace, ∀ ev ∈ e.call.connEvents, ev.handle ≠ w.newConn :=
      fun e he ev hev => ne_of_lt (hok.conns_lt ev (mem_connLog he hev))
    have hheldFresh : ∀ k, w.heldConn k ≠ some w.newConn := by
      intro k hk
      have hlt := hok.conns_lt _ (hok.conns.live k w.newConn hk).1
      exact lt_irrefl w.newConn hlt
    intro e he ev hev k hk
    rw [(held_manage hold currentTime gap io k).1] at hk
    rw [manage_eq hold] at he
    rcases List.mem_append.mp he with he | he
    · -- an old call: the handle is not the fresh one
      by_cases hself : k = jobId
      · rw [if_pos hself] at hk
        rcases howns.new_cases hk with hheld | heq
        · rw [hself]; exact h e he ev hev jobId hheld
        · exact absurd heq (hfresh e he ev hev)
      · rw [if_neg hself] at hk
        exact h e he ev hev k hk
    · -- a call of this turn: it is about the task's own handle
      obtain ⟨call, hcall, rfl⟩ := List.mem_map.mp he
      show k = jobId
      by_contra hself
      rw [if_neg hself] at hk
      rcases howns.handle_cases (List.mem_flatMap.mpr ⟨call, hcall, hev⟩) with hheld | heq
      · exact hself (hok.conns.exclusive k jobId ev.handle hk hheld)
      · rw [heq] at hk; exact hheldFresh k hk

/-- **Every step keeps a handle with its task.** -/
theorem attributed_step {w : World} (hok : WorldOk w) (h : w.Attributed) (l : Label) :
    (w.step l).Attributed := by
  rcases step_cases w l with hquiet | ⟨io, rfl⟩ | ⟨jobId, currentTime, gap, io, rfl⟩
  · intro e he ev hev k hk
    rw [hquiet.owns.1] at hk
    rw [hquiet.trace] at he
    exact h e he ev hev k hk
  · exact attributed_wait hok h io
  · exact attributed_manage hok h jobId currentTime gap io

/-- The states a worker reaches from its start. -/
theorem reached (statementTimeout : StatementTimeout) (history : History) (ls : List Label) :
    WorldOk (Machine.run World.step (World.launch statementTimeout history) ls) ∧
      (Machine.run World.step (World.launch statementTimeout history) ls).Attributed := by
  refine Machine.run_induction (P := fun w => WorldOk w ∧ w.Attributed)
    (fun _ l h => ⟨h.1.step l, attributed_step h.1 h.2 l⟩) ls ⟨worldOk_launch _ _, ?_⟩
  intro e he
  exact absurd he (by simp [World.launch])

/-! ### The calls on a connection -/

/-- The connection a call is made on, or returns. -/
def Call.conn : Call → Option Nat
  | .connectStartParams _ conn => conn
  | .sendQuery conn _ _ => conn
  | .getResult conn _ _ => conn
  | .finish conn => conn
  | .use _ conn => conn
  | _ => none

/-- How often a connection has been passed to `PQfinish`. -/
def World.finishes (w : World) (conn : Nat) : Nat :=
  (w.trace.map Entry.call).count (.finish (some conn))

/-- A call on a connection leaves an event of it. -/
theorem connEvents_of_conn {call : Call} {conn : Nat} (h : call.conn = some conn) :
    ∃ ev ∈ call.connEvents, ev.handle = conn := by
  cases call with
  | connectStartParams params c => cases h; exact ⟨.acquire conn, by simp [Call.connEvents], rfl⟩
  | sendQuery c command sent => cases h; exact ⟨.use conn, by simp [Call.connEvents], rfl⟩
  | getResult c result busy => cases h; exact ⟨.use conn, by simp [Call.connEvents], rfl⟩
  | finish c => cases h; exact ⟨.release conn, by simp [Call.connEvents], rfl⟩
  | use function c => cases h; exact ⟨.use conn, by simp [Call.connEvents], rfl⟩
  | insertRun runId jobId database userName startTime => cases h
  | updatePID runId pid => cases h
  | finishRun runId status message endTime => cases h

/-- `PQfinish` is the only call that closes a connection. -/
theorem count_release_connEvents (call : Call) (conn : Nat) :
    call.connEvents.count (.release conn) = if call = .finish (some conn) then 1 else 0 := by
  cases call with
  | finish c =>
    cases c with
    | none => rfl
    | some c =>
      by_cases hc : c = conn
      · simp [Call.connEvents, hc]
      · simp [Call.connEvents, hc]
  | connectStartParams params c => cases c <;> simp [Call.connEvents]
  | sendQuery c command sent => cases c <;> simp [Call.connEvents]
  | getResult c result busy => cases c <;> simp [Call.connEvents]
  | use function c => cases c <;> simp [Call.connEvents]
  | insertRun runId jobId database userName startTime => rfl
  | updatePID runId pid => rfl
  | finishRun runId status message endTime => rfl

/-- The connections given back in the log are the calls of `PQfinish`. -/
theorem count_release_connLog (w : World) (conn : Nat) :
    w.connLog.count (.release conn) = w.finishes conn := by
  have hlist : ∀ es : List Entry, (es.flatMap fun e => e.call.connEvents).count (.release conn) =
      (es.map Entry.call).count (.finish (some conn)) := by
    intro es
    induction es with
    | nil => rfl
    | cons e es ih =>
      rw [List.flatMap_cons, List.count_append, ih, count_release_connEvents, List.map_cons,
        List.count_cons, add_comm]
      simp only [beq_iff_eq]
  exact hlist w.trace

/-- A held connection has not been closed. -/
theorem finishes_of_held {w : World} (hok : WorldOk w) {k : Int} {conn : Nat}
    (h : w.heldConn k = some conn) : w.finishes conn = 0 := by
  rw [← count_release_connLog]
  exact List.count_eq_zero_of_not_mem (hok.conns.live k conn h).2

/-- A task holding a connection is at work. -/
theorem state_of_conn {k : Int} {task : CronTask} (h : TaskOk k task) {conn : Nat}
    (hconn : task.conn = some conn) : task.state.inFlight = true := by
  have hidle : ¬(task.state = .waiting ∨ task.state = .start ∨ task.state = .done) := by
    intro hstate
    rw [h.idle_conn hstate] at hconn
    exact absurd hconn (by simp)
  have hreceiving := h.not_receiving
  cases hstate : task.state <;>
    simp_all [CronTaskState.inFlight, CronTaskState.isConnected]

/-- **The life of a connection.** In every state a worker reaches, in any order of its steps:

    * a connection returned to a job's task is either closed exactly once, or it is not closed
      and that task holds it and is CONNECTING, SENDING, RUNNING or in ERROR — so it is closed
      by the time the task is WAITING again or gone;
    * after `PQfinish` no call is made on it;
    * a job has at most one connection that is not closed, and no two tasks share one;
    * `task->conn` is `NULL` in WAITING, START and DONE and not `NULL` in CONNECTING, SENDING
      and RUNNING, and RECEIVING is never entered. -/
theorem connection_lifecycle (statementTimeout : StatementTimeout) (history : History)
    (ls : List Label) :
    let w := Machine.run World.step (World.launch statementTimeout history) ls
    (∀ e ∈ w.trace, ∀ params conn, e.call = .connectStartParams params (some conn) →
      w.finishes conn = 1 ∨
        (w.finishes conn = 0 ∧ ∃ task, w.tasks.lookup e.jobId = some task ∧
          task.conn = some conn ∧ task.state ∈
            [CronTaskState.connecting, .sending, .running, .error])) ∧
    (∀ before e after conn, w.trace = before ++ e :: after → e.call = .finish (some conn) →
      ∀ e' ∈ after, e'.call.conn ≠ some conn) ∧
    (∀ e ∈ w.trace, ∀ e' ∈ w.trace, ∀ params params' conn conn',
      e.call = .connectStartParams params (some conn) →
      e'.call = .connectStartParams params' (some conn') → e.jobId = e'.jobId →
      w.finishes conn = 0 → w.finishes conn' = 0 → conn = conn') ∧
    (∀ k k' task task' conn, w.tasks.lookup k = some task → w.tasks.lookup k' = some task' →
      task.conn = some conn → task'.conn = some conn → k = k') ∧
    ∀ k task, w.tasks.lookup k = some task →
      (task.state ∈ [CronTaskState.waiting, .start, .done] → task.conn = none) ∧
      (task.state ∈ [CronTaskState.connecting, .sending, .running] → task.conn ≠ none) ∧
      task.state ≠ .receiving := by
  intro w
  obtain ⟨hok, hattr⟩ := reached statementTimeout history ls
  -- an opened connection has been given back, or the task of its job holds it
  have hopen : ∀ e ∈ w.trace, ∀ params conn, e.call = .connectStartParams params (some conn) →
      w.finishes conn = 1 ∨ w.heldConn e.jobId = some conn := by
    intro e he params conn hcall
    have hev : .acquire conn ∈ e.call.connEvents := by rw [hcall]; simp [Call.connEvents]
    rcases hok.conns.returned conn (mem_connLog he hev) with ⟨k, hk⟩ | hone
    · right
      rw [← hattr e he (.acquire conn) hev k hk]
      exact hk
    · left
      rw [← count_release_connLog]
      exact hone
  refine ⟨?_, ?_, ?_, ?_, ?_⟩
  · intro e he params conn hcall
    refine (hopen e he params conn hcall).imp_right fun hheld => ?_
    obtain ⟨task, hlookup, hconn⟩ := Option.bind_eq_some_iff.mp hheld
    refine ⟨finishes_of_held hok hheld, task, hlookup, hconn, ?_⟩
    have hflight := state_of_conn (hok.tasks _ task hlookup) hconn
    -- WAITING, START and DONE hold none
    cases hstate : task.state <;>
      simp_all [CronTaskState.inFlight, CronTaskState.isConnected]
  · intro before e after conn htrace hcall e' he' hconn
    -- a later call on it would be an event after the release
    obtain ⟨ev, hev, hhandle⟩ := connEvents_of_conn hconn
    have hlog : w.connLog = (before.flatMap fun e => e.call.connEvents) ++
        .release conn :: after.flatMap fun e => e.call.connEvents := by
      rw [World.connLog, htrace, List.flatMap_append, List.flatMap_cons, hcall]
      rfl
    exact hok.conns.quiet _ conn _ hlog ev (List.mem_flatMap.mpr ⟨e', he', hev⟩) hhandle
  · intro e he e' he' params params' conn conn' hcall hcall' hjob hzero hzero'
    have hheld := (hopen e he params conn hcall).resolve_left (by omega)
    have hheld' := (hopen e' he' params' conn' hcall').resolve_left (by omega)
    rw [hjob] at hheld
    exact Option.some.inj (hheld.symm.trans hheld')
  · intro k k' task task' conn hlookup hlookup' hconn hconn'
    apply hok.conns.exclusive k k' conn
    · rw [heldConn_of_lookup hlookup, hconn]
    · rw [heldConn_of_lookup hlookup', hconn']
  · intro k task hlookup
    have htask := hok.tasks k task hlookup
    refine ⟨fun hstate => htask.idle_conn (by simpa using hstate), fun hstate => ?_,
      htask.not_receiving⟩
    have hconnected : task.state.isConnected = true := by
      simpa [CronTaskState.isConnected, or_assoc] using hstate
    exact Option.isSome_iff_ne_none.mp (htask.connected_conn hconnected)

end NedoCron
