import NedoCron.OneVersion

namespace NedoCron

/-!
# nedo_cron — output that is still unsent

The connections are non-blocking: `PQsendQuery` may return 1 while a part of the command is still in
the output buffer of libpq, and later bytes leave only when `PQflush`, which the worker never calls,
or `PQconsumeInput` is called.  `Wire` puts this buffer beside the worker.

* `running_reads` — a task in RUNNING is only ever woken for reading;
* `running_continues` — on a ready socket it would go on sending;
* `sendsInFull_reached_iff` — so it goes on sending just when there is nothing left to send;
* `commands_sentInFull_iff` — in a run, that is when no `PQsendQuery` leaves anything unsent.
-/

/-! ### The output buffers -/

/-- What becomes of the output during a step. -/
structure Output where
  /-- how many bytes `PQsendQuery` leaves unsent -/
  left : Nat
  /-- how many bytes `PQconsumeInput` sends -/
  flushed : Nat

/-- The bytes of a query message: its type, its length, the command and its end. -/
def queryLength (command : CString) : Nat := command.length + 6

/-- The unsent bytes of each connection after a call. -/
def Call.output (output : Output) (unsent : Nat → Nat) : Call → Nat → Nat
  | .connectStartParams _ (some conn) => Function.update unsent conn 0
  | .sendQuery (some conn) command true =>
    Function.update unsent conn (min output.left (unsent conn + queryLength command))
  | .use .consumeInput (some conn) =>
    Function.update unsent conn (unsent conn - output.flushed)
  | _ => unsent

/-- The worker, and the unsent bytes of each connection. -/
structure Wire where
  world : World
  unsent : Nat → Nat

def Wire.launch (statementTimeout : StatementTimeout) (history : History) : Wire where
  world := World.launch statementTimeout history
  unsent _ := 0

/-- A step of the worker, with what becomes of the output of its calls. -/
def Wire.step (s : Wire) (l : Label × Output) : Wire where
  world := s.world.step l.1
  unsent := (s.world.recorded l.1).foldl (fun unsent e => e.call.output l.2 unsent) s.unsent

/-- The world of a run on the wire. -/
theorem world_run (s : Wire) (ls : List (Label × Output)) :
    (Machine.run Wire.step s ls).world = Machine.run World.step s.world (ls.map Prod.fst) := by
  induction ls generalizing s with
  | nil => rfl
  | cons l ls ih => exact ih (s.step l)

/-- A task in RUNNING with unsent output goes on sending. -/
structure Wire.GoesOn (s : Wire) (task : CronTask) (conn : Nat) : Prop where
  /-- its socket is registered for `WL_SOCKET_WRITEABLE` -/
  registered : taskWaitEvents task.unready = some .writeable ∧
    ∀ io : WaitReplies, 0 ≤ io.socket conn → (registerTask io task.unready).2.1 = true
  /-- its next step on the ready socket sends more, or ends the run -/
  continues : ∀ currentTime gap io,
    let turn := s.world.turn { task with isSocketReady := true } currentTime gap io
    .use .consumeInput (some conn) ∈ turn.calls ∨
      ∀ task', turn.fate = .kept task' → task'.state ≠ .running

/-- No task waits for the answer to a command that is not sent in full. -/
def Wire.SendsInFull (s : Wire) : Prop :=
  ∀ k task conn, s.world.tasks.lookup k = some task → task.state = .running →
    task.conn = some conn → 0 < s.unsent conn → s.GoesOn task conn

/-- No task in RUNNING has unsent output. -/
def Wire.NothingLeft (s : Wire) : Prop :=
  ∀ k task conn, s.world.tasks.lookup k = some task → task.state = .running →
    task.conn = some conn → s.unsent conn = 0

/-! ### RUNNING only reads -/

/-- RUNNING polls for reading. -/
theorem Outcome.running_reads {context : StepContext} {io : Replies} {task : CronTask}
    {turn : Turn} (houtcome : Outcome context io task turn)
    (h : task.state = .running → task.pollingStatus = .reading) {task' : CronTask}
    (hkept : turn.fate = .kept task') (hrunning : task'.state = .running) :
    task'.pollingStatus = .reading := by
  cases houtcome with
  | removed hstate hactive => cases hkept
  | idle hstate => cases hkept; exact h hrunning
  | waits hstate functions hcancel pollingStatus =>
    cases hkept
    change task.state = .running at hrunning
    rw [hrunning] at hstate
    rcases hstate with hs | hs <;> cases hs
  -- the query is sent with polling for reading, and so the run goes on
  | sent job hjob hstate => cases hkept; rfl
  | runs hstate base functions more hchecked hcancel =>
    cases hkept
    cases hchecked with
    | within => exact h hstate
    | cancelled hoverdue => rfl
  | closed base hdone hbase =>
    obtain ⟨-, rfl⟩ := manageError_kept hkept
    cases hrunning
  | reset hstate =>
    unfold manageDone at hkept
    split at hkept <;> (cases hkept; cases hrunning)
  | _ => cases hkept; cases hrunning

/-- **A task in RUNNING** is polled for reading. -/
theorem running_reads : TaskRule (fun _ _ => True)
    (fun task => task.state = .running → task.pollingStatus = .reading) where
  init _ _ := fun h => by cases h
  idles := by
    rintro task task' ⟨_, _, _, _, rfl⟩ h
    exact h
  waitFails _ _ _ _ _ _ := fun h => by cases h
  turn _ h hkept := (turn_outcome _ _ _ _ _).running_reads h hkept

/-- A ready socket is read. -/
theorem readInput_consumes {task : CronTask} {conn : Nat} (hready : task.isSocketReady = true)
    (hconn : task.conn = some conn) (io : Replies) (calls : List Call) :
    .use .consumeInput (some conn) ∈ (readInput task io calls).calls := by
  unfold readInput
  rw [hready, if_neg (by decide), hconn]
  split
  · simp [Turn.keep, uses]
  · split
    · simp [Turn.keep, uses]
    · simp [uses]

/-- **On a ready socket** RUNNING sends what is left, or ends the run; what is missing is the
    registration for writing. -/
theorem running_continues (w : World) {task : CronTask} {conn : Nat}
    (hrunning : task.state = .running) (hconn : task.conn = some conn) (currentTime : Int)
    (gap : Nat) (io : Replies) :
    let turn := w.turn { task with isSocketReady := true } currentTime gap io
    .use .consumeInput (some conn) ∈ turn.calls ∨
      ∀ task', turn.fate = .kept task' → task'.state ≠ .running := by
  intro turn
  have hstate : { task with isSocketReady := true }.state = .running := hrunning
  cases hjob : getCronJob w.jobs { task with isSocketReady := true }.jobId with
  | none =>
    refine Or.inr fun task' hkept => ?_
    have hdone : task'.state = .done := state_of_jobless hjob (by rw [hstate]; decide) hkept
    rw [hdone]
    decide
  | some job =>
    have heq : turn = manageRunning { task with isSocketReady := true } currentTime io :=
      turn_running hjob hstate currentTime gap io
    rw [heq, manageRunning]
    -- a step into ERROR leaves RUNNING
    have herror : ∀ {failed : CronTask} {calls : List Call}, failed.state = .error →
        ∀ task', (Turn.keep failed calls).fate = .kept task' → task'.state ≠ .running := by
      rintro failed calls hstate task' hkept
      obtain rfl := Fate.kept.inj hkept
      rw [hstate]
      decide
    -- the branches of RUNNING: each fails, or reads the input
    split
    · exact Or.inr (herror rfl)
    · split
      · exact Or.inr (herror rfl)
      · split
        · split
          · exact Or.inr (herror rfl)
          · split
            · exact Or.inr (herror rfl)
            · left
              apply readInput_consumes
              · rfl
              · exact hconn
        · left
          apply readInput_consumes
          · rfl
          · exact hconn

/-- What is known of every state that is reached. -/
theorem wire_reached (statementTimeout : StatementTimeout) (history : History)
    (ls : List (Label × Output)) :
    let s := Machine.run Wire.step (Wire.launch statementTimeout history) ls
    WorldOk s.world ∧
      s.world.All fun task => task.state = .running → task.pollingStatus = .reading := by
  intro s
  have hworld : s.world = Machine.run World.step (World.launch statementTimeout history)
      (ls.map Prod.fst) := world_run _ ls
  rw [hworld]
  exact ⟨(worldOk_launch statementTimeout history).run _,
    running_reads.run statementTimeout history (Machine.guarded_of_forall _ fun _ _ => trivial)⟩

/-- **In a state that is reached**, no task waits for the answer to a command that is not sent in
    full if and only if no task in RUNNING has unsent output. -/
theorem sendsInFull_reached_iff (statementTimeout : StatementTimeout) (history : History)
    (ls : List (Label × Output)) :
    (Machine.run Wire.step (Wire.launch statementTimeout history) ls).SendsInFull ↔
      (Machine.run Wire.step (Wire.launch statementTimeout history) ls).NothingLeft := by
  constructor
  · intro h k task conn hlookup hrunning hconn
    by_contra hne
    have hevents := (h k task conn hlookup hrunning hconn (Nat.pos_of_ne_zero hne)).registered.1
    have hreads := (wire_reached statementTimeout history ls).2 k task hlookup hrunning
    rw [taskWaitEvents, show task.unready.pollingStatus = .reading from hreads] at hevents
    cases hevents
  · intro h k task conn hlookup hrunning hconn hpos
    exact absurd (h k task conn hlookup hrunning hconn) (Nat.ne_of_gt hpos)

/-! ### Sending -/

/-- The step calls `PQsendQuery`, and it returns 1. -/
def World.SendsQuery (w : World) : Label → Prop
  | .manage k currentTime _ io => ∃ task job, w.tasks.lookup k = some task ∧
      getCronJob w.jobs task.jobId = some job ∧ task.state = .sending ∧ task.isActive = true ∧
      timestampDifferenceExceeds task.startDeadline currentTime 0 = false ∧
      connectionBad task.conn io = false ∧ task.isSocketReady = true ∧ io.sendQuery = 1
  | _ => False

/-- SENDING sends the query on a ready socket, unless the run fails first. -/
theorem sends_iff_of_sending (task : CronTask) (job : CronJob)
    (statementTimeoutMs currentTime : Int) (io : Replies) :
    (∃ call ∈ (manageSending task job statementTimeoutMs currentTime io).calls,
      call.startsRunning = true) ↔
    task.isActive = true ∧ timestampDifferenceExceeds task.startDeadline currentTime 0 = false ∧
      connectionBad task.conn io = false ∧ task.isSocketReady = true ∧ io.sendQuery = 1 := by
  unfold manageSending
  cases task.isActive with
  | false => simp [Turn.keep]
  | true =>
    cases timestampDifferenceExceeds task.startDeadline currentTime 0 with
    | true => simp [Turn.keep]
    | false =>
      cases connectionBad task.conn io with
      | true => simp [Turn.keep, uses, Call.startsRunning]
      | false =>
        cases task.isSocketReady with
        | false => simp [Turn.keep, uses, Call.startsRunning]
        | true =>
          by_cases hsent : io.sendQuery = 1
          · simp [Turn.keep, uses, Call.startsRunning, hsent]
          · simp [Turn.keep, uses, Call.startsRunning, hsent]

/-- The turn of a task in SENDING. -/
theorem turn_eq_manageSending {w : World} {task : CronTask} {job : CronJob}
    (hjob : getCronJob w.jobs task.jobId = some job) (hstate : task.state = .sending)
    (currentTime : Int) (gap : Nat) (io : Replies) :
    w.turn task currentTime gap io =
      manageSending task job w.statementTimeout.ms currentTime io := by
  unfold World.turn manageCronTask World.context
  rw [hjob, hstate]

/-- A query that is recorded as sent was sent by SENDING. -/
theorem sendsQuery_of_recorded {w : World} {l : Label} {e : Entry} (he : e ∈ w.recorded l)
    (hsent : e.call.startsRunning = true) : w.SendsQuery l := by
  rcases mem_recorded he with hsocket | ⟨task, gap, io, rfl, hlookup, -, hcall⟩
  · cases hc : e.call with
    | use f conn => rw [hc] at hsent; cases hsent
    | _ => rw [hc] at hsocket; exact (hsocket : False).elim
  · rcases (turn_outcome w task e.time gap io).mem_calls hcall with
      ⟨job, -, -, -, heq | ⟨conn, heq⟩⟩ | ⟨job, sent, hjob, hstate, -⟩ | hplain
    · rw [heq] at hsent; cases hsent
    · rw [heq] at hsent; cases hsent
    · rw [turn_eq_manageSending hjob hstate] at hcall
      exact ⟨task, job, hlookup, hjob, hstate,
        (sends_iff_of_sending task job _ _ _).mp ⟨e.call, hcall, hsent⟩⟩
    · cases hc : e.call with
      | sendQuery conn command sent => rw [hc] at hplain; cases hplain
      | _ => rw [hc] at hsent; cases hsent

/-- **After a query was sent** its task is in RUNNING, and what `PQsendQuery` has left is unsent. -/
theorem unsent_of_sendsQuery {s : Wire} (hok : WorldOk s.world) {l : Label × Output}
    (hsends : s.world.SendsQuery l.1) :
    ∃ k task conn, (s.step l).world.tasks.lookup k = some task ∧ task.state = .running ∧
      task.conn = some conn ∧ (l.2.left ≠ 0 → (s.step l).unsent conn ≠ 0) := by
  obtain ⟨l, output⟩ := l
  cases l with
  | manage k currentTime gap io =>
    obtain ⟨task, job, hlookup, hjob, hstate, hactive, hdeadline, hbad, hready, hsent⟩ := hsends
    obtain ⟨conn, hconn⟩ := Option.isSome_iff_exists.mp
      ((hok.tasks k task hlookup).connected_conn (by rw [hstate]; rfl))
    have hturn := turn_eq_manageSending hjob hstate currentTime gap io
    rw [manageSending, if_neg (by rw [hactive]; decide), hdeadline, if_neg Bool.false_ne_true, hbad,
      if_neg Bool.false_ne_true, hready, if_neg (by decide), if_pos hsent, hconn] at hturn
    have hafter := lookup_manage_self hlookup currentTime gap io
    change _ = Fate.task (s.world.turn task currentTime gap io).fate at hafter
    rw [hturn] at hafter
    refine ⟨k, _, conn, hafter, rfl, rfl, fun hleft => ?_⟩
    change output.left ≠ 0 at hleft
    have hunsent : (s.step (.manage k currentTime gap io, output)).unsent conn =
        min output.left (s.unsent conn + queryLength job.command) := by
      unfold Wire.step
      dsimp only
      rw [recorded_manage hlookup, hturn]
      exact Function.update_self _ _ _
    rw [hunsent]
    unfold queryLength
    omega
  | _ => exact hsends.elim

/-- Of the calls, only a query can leave something unsent. -/
theorem output_eq_zero {output : Output} {unsent : Nat → Nat} {call : Call}
    (hwhole : call.startsRunning = true → output.left = 0) (h : ∀ conn, unsent conn = 0)
    (conn : Nat) : call.output output unsent conn = 0 := by
  -- what the server takes leaves nothing behind
  have hupdate : ∀ (c n : Nat), n = 0 → Function.update unsent c n conn = 0 := by
    rintro c n rfl
    by_cases hc : conn = c
    · rw [hc, Function.update_self]
    · rw [Function.update_of_ne hc, h]
  cases call with
  | connectStartParams params c =>
    cases c with
    | none => exact h conn
    | some c => exact hupdate c 0 rfl
  | sendQuery c command sent =>
    cases c with
    | none => exact h conn
    | some c =>
      cases sent with
      | false => exact h conn
      | true =>
        apply hupdate
        rw [hwhole rfl, Nat.zero_min]
  | use f c =>
    cases c with
    | none => cases f <;> exact h conn
    | some c =>
      cases f with
      | consumeInput =>
        apply hupdate
        rw [h, Nat.zero_sub]
      | _ => exact h conn
  | _ => exact h conn

/-- Without a query that leaves something unsent, the buffers stay empty. -/
theorem unsent_step {s : Wire} {l : Label × Output}
    (hwhole : s.world.SendsQuery l.1 → l.2.left = 0) (h : ∀ conn, s.unsent conn = 0) :
    ∀ conn, (s.step l).unsent conn = 0 := by
  have hcalls : ∀ (entries : List Entry) (unsent : Nat → Nat),
      (∀ e ∈ entries, e.call.startsRunning = true → l.2.left = 0) → (∀ conn, unsent conn = 0) →
      ∀ conn, entries.foldl (fun unsent e => e.call.output l.2 unsent) unsent conn = 0 := by
    intro entries
    induction entries with
    | nil => exact fun _ _ hzero => hzero
    | cons e entries ih =>
      intro unsent hsent hzero
      exact ih _ (fun e' he' => hsent e' (List.mem_cons_of_mem _ he'))
        (output_eq_zero (hsent e List.mem_cons_self) hzero)
  exact hcalls _ _ (fun e he hsent => hwhole (sendsQuery_of_recorded he hsent)) h

/-! ### Runs -/

/-- **Commands are sent in full**: in every state of a run, the tasks in RUNNING with unsent output
    are registered for writing and go on sending, if and only if every `PQsendQuery` of the run that
    returns 1 leaves nothing unsent. -/
theorem commands_sentInFull_iff (statementTimeout : StatementTimeout) (history : History)
    (ls : List (Label × Output)) :
    (∀ before after, ls = before ++ after →
      (Machine.run Wire.step (Wire.launch statementTimeout history) before).SendsInFull) ↔
    ∀ before l after, ls = before ++ l :: after →
      (Machine.run Wire.step (Wire.launch statementTimeout history) before).world.SendsQuery l.1 →
        l.2.left = 0 := by
  constructor
  · intro h before l after heq hsends
    by_contra hleft
    have hok := (wire_reached statementTimeout history before).1
    obtain ⟨k, task, conn, hlookup, hrunning, hconn, hunsent⟩ := unsent_of_sendsQuery hok hsends
    -- right after the query its task already waits for the answer
    have hafter := h (before ++ [l]) after (by rw [heq]; simp)
    rw [sendsInFull_reached_iff] at hafter
    have hrun : Machine.run Wire.step (Wire.launch statementTimeout history) (before ++ [l]) =
        (Machine.run Wire.step (Wire.launch statementTimeout history) before).step l :=
      Machine.run_append _ _ _
    rw [hrun] at hafter
    exact hunsent hleft (hafter k task conn hlookup hrunning hconn)
  · intro h before after heq
    rw [sendsInFull_reached_iff]
    have hguard : Machine.Guarded Wire.step
        (fun s l => s.world.SendsQuery l.1 → l.2.left = 0)
        (Wire.launch statementTimeout history) before := by
      apply Machine.guarded_of_split
      intro first l rest hfirst
      exact h first l (rest ++ after) (by rw [heq, hfirst]; simp)
    have hempty := Machine.guarded_induction (P := fun s : Wire => ∀ conn, s.unsent conn = 0)
      (fun s l hwhole hzero => unsent_step hwhole hzero) hguard (fun _ => rfl)
    exact fun k task conn _ _ _ => hempty conn

/-- A run in which ten bytes of the query stay in the output buffer. -/
def partlySent : List (Label × Output) :=
  (rereadRun (secondsRow (ascii "alice") (ascii "SELECT 1"))
    (secondsRow (ascii "alice") (ascii "SELECT 1"))).map fun l => (l, ⟨10, 0⟩)

/-- The worker waits for the answer to a query that is not sent in full. -/
theorem not_sentInFull :
    ¬∀ before after, partlySent = before ++ after →
      (Machine.run Wire.step (Wire.launch defaultTimeout emptyHistory) before).SendsInFull := by
  intro h
  have hfull := h partlySent [] (List.append_nil _).symm
  rw [sendsInFull_reached_iff] at hfull
  have htask : ((Machine.run Wire.step (Wire.launch defaultTimeout emptyHistory)
      partlySent).world.tasks.lookup 7).map (fun task => (task.state, task.conn)) =
        some (.running, some 1) := by decide +kernel
  obtain ⟨task, hlookup, heq⟩ := Option.map_eq_some_iff.mp htask
  have hzero := hfull 7 task 1 hlookup (congrArg Prod.fst heq) (congrArg Prod.snd heq)
  have hten : (Machine.run Wire.step (Wire.launch defaultTimeout emptyHistory)
      partlySent).unsent 1 = 10 := by decide +kernel
  rw [hten] at hzero
  cases hzero

end NedoCron
