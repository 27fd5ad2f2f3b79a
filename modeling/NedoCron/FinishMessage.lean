import NedoCron.RunCalls
import Mathlib.Data.List.Induction

namespace NedoCron

/-!
# nedo_cron — a finishing update has a message

`UpdateRunDetailsFinish` converts the message to a text before it tests it for `NULL`, so a call
without a message would crash the worker.  No such call is ever made.

* `updateRunDetailsFinish` — the function in the order of its statements;
* `messageLate_rule` — a task has a message in ERROR and in DONE at most;
* `setInRun` — the message of a task in ERROR was set in its present run;
* `finishing_updates_have_messages` — the result, on every run of the worker.
-/

/-! ### The update -/

/-- `CStringGetTextDatum`, which reads the string; for `NULL` it is undefined. -/
def cstringGetTextDatum (s : Option CString) : Option CString := s

/-- `UpdateRunDetailsFinish`.  The test for `NULL` comes after the conversion. -/
def updateRunDetailsFinish (history : History) (runId : Int) (status : RunStatus)
    (message : Option CString) (endTime : Int) : Option History :=
  (cstringGetTextDatum message).map fun text =>
    let returnMessage := if message.isNone then none else some text
    history.updateRun runId fun row =>
      { row with status := status, returnMessage := returnMessage, endTime := some endTime }

/-- With a message the update is what the model applies to the history. -/
theorem updateRunDetailsFinish_some (history : History) (runId : Int) (status : RunStatus)
    (message : CString) (endTime : Int) :
    updateRunDetailsFinish history runId status (some message) endTime =
      some (history.apply (.finishRun runId status (some message) endTime)) := rfl

/-- Without one it is undefined. -/
theorem updateRunDetailsFinish_none (history : History) (runId : Int) (status : RunStatus)
    (endTime : Int) : updateRunDetailsFinish history runId status none endTime = none := rfl

/-! ### Turns -/

/-- A task has a message only once its run has failed. -/
def CronTask.MessageLate (task : CronTask) : Prop :=
  task.errorMessage ≠ none → task.state = .error ∨ task.state = .done

/-- Before a failure there is no message. -/
theorem CronTask.MessageLate.eq_none {task : CronTask} (h : task.MessageLate)
    (herror : task.state ≠ .error) (hdone : task.state ≠ .done) : task.errorMessage = none := by
  by_contra hmessage
  rcases h hmessage with heq | heq
  · exact herror heq
  · exact hdone heq

/-- A connected task has not failed yet. -/
theorem ne_of_isConnected {state : CronTaskState} (h : state.isConnected = true) :
    state ≠ .error ∧ state ≠ .done := by
  constructor <;> (rintro rfl; cases h)

section Outcomes

variable {context : StepContext} {io : Replies} {task : CronTask} {turn : Turn}

/-- A turn sets a message only on the way to ERROR. -/
theorem Outcome.messageLate (houtcome : Outcome context io task turn) (h : task.MessageLate)
    {task' : CronTask} (hkept : turn.fate = .kept task') : task'.MessageLate := by
  -- the states before a failure
  have hnone : ∀ {state : CronTaskState}, task.state = state →
      (state ≠ .error ∧ state ≠ .done) → task.errorMessage = none := by
    rintro state rfl ⟨herror, hdone⟩
    exact h.eq_none herror hdone
  cases houtcome with
  | removed hstate hactive => cases hkept
  | idle hstate => cases hkept; exact h
  | due hstate hpending => cases hkept; exact fun hsome => absurd (hnone hstate (by decide)) hsome
  | opened job hjob hstate =>
    cases hkept; exact fun hsome => absurd (hnone hstate (by decide)) hsome
  | waits hstate functions hcancel pollingStatus => cases hkept; exact h
  | connected hstate => cases hkept; exact fun hsome => absurd (hnone hstate (by decide)) hsome
  | sent job hjob hstate =>
    cases hkept; exact fun hsome => absurd (hnone hstate (by decide)) hsome
  | runs hstate base functions more hchecked hcancel =>
    cases hkept
    cases hchecked with
    | within => exact h
    | cancelled hoverdue => exact fun hsome => absurd (hnone hstate (by decide)) hsome
  | succeeded hstate base functions more hchecked hcancel hread =>
    cases hkept; exact fun _ => Or.inr rfl
  | closed base hdone hbase =>
    obtain ⟨-, rfl⟩ := manageError_kept hkept
    exact fun _ => Or.inr rfl
  | reset hstate =>
    unfold manageDone at hkept
    split at hkept <;> (cases hkept; exact fun hsome => absurd rfl hsome)
  | _ => cases hkept; exact fun _ => Or.inl rfl

/-- **How a task gets to ERROR** in its turn: from another state, in the run that it is in
    afterwards, or in START, where this run begins. -/
theorem Outcome.error_cases (houtcome : Outcome context io task turn) {task' : CronTask}
    (hkept : turn.fate = .kept task') (hstate' : task'.state = .error) :
    (task.state ≠ .error ∧ task.state ≠ .done) ∧
      (task.state = .start ∨ task'.runId = task.runId) := by
  -- the state before is neither ERROR nor DONE
  have hother : ∀ {state : CronTaskState}, task.state = state →
      (state ≠ .error ∧ state ≠ .done) → task.state ≠ .error ∧ task.state ≠ .done := by
    rintro state rfl hne
    exact hne
  cases houtcome with
  | removed hstate hactive => cases hkept
  | idle hstate => cases hkept; rw [hstate] at hstate'; cases hstate'
  | due hstate hpending => cases hkept; cases hstate'
  | refused job hjob hstate fmt args =>
    cases hkept
    exact ⟨hother hstate (by decide), Or.inl hstate⟩
  | unusable job hjob hstate functions hcancel fmt args =>
    cases hkept
    exact ⟨hother hstate (by decide), Or.inl hstate⟩
  | opened job hjob hstate => cases hkept; cases hstate'
  | failed hstate functions hcancel fmt args =>
    cases hkept
    exact ⟨ne_of_isConnected hstate, Or.inr rfl⟩
  | waits hstate functions hcancel pollingStatus =>
    cases hkept
    rcases hstate with hstate | hstate <;> exact absurd (hstate.symm.trans hstate') (by decide)
  | connected hstate => cases hkept; cases hstate'
  | sent job hjob hstate => cases hkept; cases hstate'
  | unsent job hjob hstate fmt args =>
    cases hkept
    exact ⟨hother hstate (by decide), Or.inr rfl⟩
  | notCancelled hstate hoverdue functions hone fmt args cancelRequested runDeadline =>
    cases hkept
    exact ⟨hother hstate (by decide), Or.inr rfl⟩
  | runs hstate base functions more hchecked hcancel =>
    cases hkept
    rw [hchecked.state_eq, hstate] at hstate'
    cases hstate'
  | unread hstate base functions more hchecked hcancel fmt args =>
    cases hkept
    exact ⟨hother hstate (by decide), Or.inr hchecked.runId_eq⟩
  | succeeded hstate base functions more hchecked hcancel hread => cases hkept; cases hstate'
  | resultFailed hstate base functions more hchecked hcancel before after result busy hresults
      hbefore hfails fmt =>
    cases hkept
    refine ⟨hother hstate (by decide), Or.inr ?_⟩
    exact (base.atResult_runId result).trans hchecked.runId_eq
  | closed base hdone hbase =>
    -- the error branch leads to DONE
    obtain ⟨-, rfl⟩ := manageError_kept hkept
    cases hstate'
  | reset hstate =>
    unfold manageDone at hkept
    split at hkept <;> (cases hkept; cases hstate')

/-- **A finishing update has a message**: success has its own text, and what fails has one by the
    time the ERROR step records it. -/
theorem Outcome.finish_message (houtcome : Outcome context io task turn) {jobId : Int}
    (hok : TaskOk jobId task) {r : Int} {status : RunStatus} {message : Option CString}
    {endTime : Int} (hcall : .finishRun r status message endTime ∈ turn.calls) :
    message ≠ none := by
  have hsql : .finishRun r status message endTime ∈ statements turn.calls :=
    List.mem_filter.mpr ⟨hcall, rfl⟩
  cases houtcome with
  | succeeded hstate base functions more hchecked hcancel hread =>
    simp [Turn.keep, Call.isStatement] at hsql
    simp [hsql.2.2.1]
  | closed base hdone hbase =>
    have hbase' : base.errorMessage ≠ none := by
      rcases hbase with ⟨rfl, hstate⟩ | ⟨-, rfl⟩
      · exact Option.isSome_iff_ne_none.mp (hok.error_text hstate)
      · exact Option.some_ne_none _
    rcases mem_manageError hcall with heq | heq
    · obtain ⟨-, -, rfl, -⟩ := Call.finishRun.inj heq
      exact hbase'
    · cases heq
  | reset hstate => exact absurd hcall (by simp [manageDone, Turn.keep])
  | _ => simp [Turn.keep, Call.isStatement] at hsql

end Outcomes

/-! ### Steps -/

/-- **Every step** keeps this: a task is created without a message, and its reset clears it. -/
theorem messageLate_rule : TaskRule (fun _ _ => True) CronTask.MessageLate where
  init _ _ := fun h => absurd rfl h
  idles := by
    rintro task task' ⟨_, _, _, _, rfl⟩ h
    exact h
  waitFails _ _ _ _ _ _ := fun _ => Or.inl rfl
  turn _ h hkept := (turn_outcome _ _ _ _ _).messageLate h hkept

/-- A task that is in ERROR after a step was there before, or the step has failed its run. -/
theorem TaskStep.error_cases {w : World} {k : Int} {task task' : CronTask} {l : Label}
    (h : TaskStep w k task l task') (hstate' : task'.state = .error) :
    Idles task task' ∨ ((task.state ≠ .error ∧ task.state ≠ .done) ∧
      (task.state = .start ∨ task'.runId = task.runId)) := by
  rcases h.run_cases with hidles | ⟨leftover, fmt, args, pollingStatus, hconnected, rfl⟩ |
    ⟨currentTime, gap, io, rfl, hkept⟩
  · exact Or.inl hidles
  · exact Or.inr ⟨ne_of_isConnected hconnected, Or.inr rfl⟩
  · exact Or.inr ((turn_outcome w task currentTime gap io).error_cases hkept hstate')

/-! ### Runs -/

/-- At the end of the steps `ls`, the message of the task of a job is one that its present run was
    given: before the step `l` the task had no message and was in this run, or about to begin it,
    and from this step on it has been in ERROR, in this run and with this message. -/
def SetInRun (w : World) (ls : List Label) (k : Int) (task : CronTask) : Prop :=
  ∃ before l after old, ls = before ++ l :: after ∧
    (Machine.run World.step w before).tasks.lookup k = some old ∧
    old.state ≠ .error ∧ old.errorMessage = none ∧
    (old.state = .start ∨ old.runId = task.runId) ∧
    ∀ mid, mid <+: after → ∃ t,
      (Machine.run World.step w (before ++ l :: mid)).tasks.lookup k = some t ∧
      t.state = .error ∧ t.runId = task.runId ∧ t.errorMessage = task.errorMessage

/-- One more step, through which the task stays in ERROR. -/
theorem SetInRun.snoc {w : World} {ls : List Label} {k : Int} {task task' : CronTask}
    (h : SetInRun w ls k task) {l : Label} (hidles : Idles task task')
    (hlookup' : (Machine.run World.step w (ls ++ [l])).tasks.lookup k = some task')
    (hstate' : task'.state = .error) : SetInRun w (ls ++ [l]) k task' := by
  obtain ⟨_, _, _, _, rfl⟩ := hidles
  obtain ⟨before, first, after, old, rfl, hold, herror, hnone, hrun, hstays⟩ := h
  refine ⟨before, first, after ++ [l], old, by simp, hold, herror, hnone, hrun, fun mid hmid => ?_⟩
  rcases List.prefix_concat_iff.mp hmid with rfl | hmid
  · exact ⟨_, by simpa using hlookup', hstate', rfl, rfl⟩
  · exact hstays mid hmid

/-- **The message of a task in ERROR was set in its present run.** -/
theorem setInRun (statementTimeout : StatementTimeout) (history : History) (ls : List Label)
    {k : Int} {task : CronTask}
    (hlookup : (Machine.run World.step (World.launch statementTimeout history) ls).tasks.lookup k
      = some task) (hstate : task.state = .error) :
    SetInRun (World.launch statementTimeout history) ls k task := by
  induction ls using List.reverseRecOn generalizing task with
  | nil => exact absurd hlookup (by simp [World.launch])
  | append_singleton ls l ih =>
    have hlast := hlookup
    rw [Machine.run_append] at hlast
    rcases task_step hlast with ⟨old, hold, hstep⟩ | ⟨source, currentTime, -, -, rfl⟩
    · rcases hstep.error_cases hstate with hidles | ⟨⟨herror, hdone⟩, hrun⟩
      · -- it was in ERROR before
        have hold_state : old.state = .error := hidles.sameRun.state.symm.trans hstate
        exact (ih hold hold_state).snoc hidles hlookup hstate
      · have hlate := messageLate_rule.run statementTimeout history
          (Machine.guarded_of_forall _ fun _ _ => trivial) k old hold
        refine ⟨ls, l, [], old, rfl, hold, herror, hlate.eq_none herror hdone,
          hrun.imp_right Eq.symm, fun mid hmid => ?_⟩
        obtain rfl := List.prefix_nil.mp hmid
        exact ⟨task, hlookup, hstate, rfl, rfl⟩
    · cases hstate

/-- The finishing updates recorded so far have a message. -/
def World.MessagesGiven (w : World) : Prop :=
  ∀ e ∈ w.trace, ∀ runId status message endTime,
    e.call = .finishRun runId status message endTime → message ≠ none

/-- Every step keeps this. -/
theorem messagesGiven_step {w : World} (hok : WorldOk w) (h : w.MessagesGiven) (l : Label) :
    (w.step l).MessagesGiven := by
  intro e he runId status message endTime hcall
  rw [trace_eq_recorded, List.mem_append] at he
  rcases he with he | he
  · exact h e he runId status message endTime hcall
  · rcases mem_recorded he with hsocket | ⟨task, gap, io, -, hold, -, hmem⟩
    · rw [hcall] at hsocket
      exact hsocket.elim
    · rw [hcall] at hmem
      exact (turn_outcome w task e.time gap io).finish_message (hok.tasks e.jobId task hold) hmem

/-- Every run keeps this. -/
theorem messagesGiven_run {w : World} (hok : WorldOk w) (h : w.MessagesGiven) (ls : List Label) :
    (Machine.run World.step w ls).MessagesGiven :=
  (Machine.run_induction (P := fun w : World => WorldOk w ∧ w.MessagesGiven)
    (fun _ l h => ⟨h.1.step l, messagesGiven_step h.1 h.2 l⟩) ls ⟨hok, h⟩).2

/-- **A finishing update always has a message.**  In every state the worker reaches, a task in ERROR
    has a message, which was set in its present run.  So every recorded `UpdateRunDetailsFinish`
    has one, and is defined.  Without one it would not be. -/
theorem finishing_updates_have_messages (statementTimeout : StatementTimeout) (history : History)
    (ls : List Label) :
    (∀ k task, (Machine.run World.step (World.launch statementTimeout history) ls).tasks.lookup k
      = some task → task.state = .error →
      task.errorMessage ≠ none ∧ SetInRun (World.launch statementTimeout history) ls k task) ∧
    (∀ e ∈ (Machine.run World.step (World.launch statementTimeout history) ls).trace,
      ∀ runId status message endTime, e.call = .finishRun runId status message endTime →
      message ≠ none ∧ ∀ h, updateRunDetailsFinish h runId status message endTime =
        some (h.apply e.call)) ∧
    ∀ h runId status endTime, updateRunDetailsFinish h runId status none endTime = none := by
  have hok := worldOk_launch statementTimeout history
  refine ⟨fun k task hlookup hstate => ⟨?_, setInRun statementTimeout history ls hlookup hstate⟩,
    fun e he runId status message endTime hcall => ?_, updateRunDetailsFinish_none⟩
  · exact Option.isSome_iff_ne_none.mp (((hok.run ls).tasks k task hlookup).error_text hstate)
  · have hgiven : (World.launch statementTimeout history).MessagesGiven := by
      intro e he
      cases he
    have hmessage := messagesGiven_run hok hgiven ls e he runId status message endTime hcall
    refine ⟨hmessage, fun h => ?_⟩
    obtain ⟨text, rfl⟩ := Option.ne_none_iff_exists'.mp hmessage
    rw [hcall]
    exact updateRunDetailsFinish_some h runId status text endTime

end NedoCron
