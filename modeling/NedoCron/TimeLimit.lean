import NedoCron.OneVersion

namespace NedoCron

/-!
# nedo_cron — the two time limits of a run

START writes `nedo_cron.statement_timeout_ms` into the options of the connection, where 0
means no limit; SENDING reads the setting again and computes the deadline at which the worker
itself requests a cancel.

* `InTime` — the worker requests a cancel only when the limit it has written has passed, and
  once for a run;
* `limited_rule` — every step keeps this as long as the setting SENDING reads is not smaller
  than the one START has written, and that one is not 0;
* `cancels_inTime` — so it holds along every such run of the worker.
-/

/-! ### What is meant -/

/-- The call is the given libpq function. -/
def Call.isUse (function : PqFunction) : Call → Bool
  | .use f _ => f = function
  | _ => false

/-- The query is sent. -/
def Entry.sends (e : Entry) : Prop := e.call.startsRunning = true

/-- The call opens a connection whose options say the limit `limit`, a value of the setting. -/
def Entry.writes (e : Entry) (limit : Int) : Prop :=
  0 ≤ limit ∧ limit ≤ intMax ∧ ∃ params conn, e.call = .connectStartParams params conn ∧
    params.options = optionsString limit

/-- What the log of a run says about its time limit. -/
structure InTime (log : List Entry) : Prop where
  /-- a connection is opened with a limit in its options -/
  written : ∀ e ∈ log, ∀ params conn, e.call = .connectStartParams params conn →
    ∃ limit, e.writes limit
  /-- a cancel is requested when there is a limit and it has passed since the query was sent -/
  timely : ∀ e ∈ log, ∀ function, function.requestsCancel = true →
    e.call.isUse function = true → ∀ e' ∈ log, ∀ limit, e'.writes limit →
      0 < limit ∧ ∃ s ∈ log, s.sends ∧ s.time + limit * 1000 ≤ e.time
  /-- it is requested at most once -/
  once : ∀ function, function.requestsCancel = true →
    log.countP (fun e => e.call.isUse function) ≤ 1

/-- The setting that is read in SENDING is at least the limit written in START, and that
    limit is not 0. -/
def World.KeepsLimit (w : World) : Label → Prop
  | .manage jobId _ _ _ => ∀ task, w.tasks.lookup jobId = some task → task.state = .sending →
      ∀ e ∈ w.log task.runId, ∀ limit, e.writes limit →
        0 < limit ∧ limit ≤ w.statementTimeout.ms
  | _ => True

/-! ### The limit in the options -/

/-- A text and a number after it. -/
theorem formatArgs_int {text : CString} (h : ∀ c ∈ text, c ≠ 37) (n : Int) :
    formatArgs (text ++ [37, 100]) [.int n] = some (text ++ showInt n) := by
  induction text with
  | nil =>
    rw [List.nil_append, formatArgs.eq_def]
    simp [formatArgs]
  | cons c text ih =>
    have hc := h c (by simp)
    rw [List.cons_append, formatArgs.eq_def]
    simp [hc, ih fun c hc => h c (by simp [hc])]

/-- The text before the limit. -/
def optionsText : CString := ascii "-c statement_timeout="

/-- The options fit into their buffer. -/
theorem optionsString_eq {limit : Int} (h : 0 ≤ limit) (hmax : limit ≤ intMax) :
    optionsString limit = optionsText ++ showInt limit := by
  have hformat : ascii "-c statement_timeout=%d" = optionsText ++ [37, 100] := by decide +kernel
  have htext : ∀ c ∈ optionsText, c ≠ 37 := by decide +kernel
  have hlength : optionsText.length = 21 := by decide +kernel
  have hdigits : (showInt limit).length ≤ 10 := by
    unfold showInt
    unfold intMax at hmax
    rw [if_neg (by omega), List.nil_append, List.length_map]
    exact (Nat.length_toDigits_le_iff (by decide) (by decide)).mpr (by omega)
  unfold optionsString vsnprintf
  rw [hformat, formatArgs_int htext, Option.getD_some, List.take_of_length_le]
  rw [List.length_append]
  omega

/-- **The options say one limit.** -/
theorem writes_unique {e : Entry} {limit limit' : Int} (h : e.writes limit)
    (h' : e.writes limit') : limit = limit' := by
  obtain ⟨hnonneg, hmax, params, conn, hcall, hoptions⟩ := h
  obtain ⟨hnonneg', hmax', params', conn', hcall', hoptions'⟩ := h'
  obtain ⟨rfl, -⟩ := Call.connectStartParams.inj (hcall.symm.trans hcall')
  rw [hoptions, optionsString_eq hnonneg hmax, optionsString_eq hnonneg' hmax'] at hoptions'
  have hsame := List.append_cancel_left hoptions'
  rw [← decimal_showInt hnonneg, hsame, decimal_showInt hnonneg']

/-- START writes the setting it reads. -/
theorem connectParams_options (job : CronJob) (limit : Int) (dbEncoding : CString) :
    (connectParams job limit dbEncoding).options = optionsString limit := by
  simp only [connectParams]

/-! ### Cancels of one turn -/

/-- How often a function is among uses. -/
@[simp] theorem countP_isUse_uses (functions : List PqFunction) (conn : Option Nat)
    (function : PqFunction) :
    (uses functions conn).countP (Call.isUse function) = functions.count function := by
  induction functions with
  | nil => rfl
  | cons f functions ih =>
    show (.use f conn :: uses functions conn).countP (Call.isUse function) = _
    rw [List.countP_cons, ih, List.count_cons]
    simp [Call.isUse]

/-- Fetches are no uses. -/
@[simp] theorem countP_isUse_fetches (conn : Option Nat) (results : List (QueryResult × Bool))
    (function : PqFunction) :
    (fetches conn results).countP (Call.isUse function) = 0 := by
  induction results with
  | nil => rfl
  | cons r results ih => exact ih

/-- There is no request to cancel among functions that make none. -/
theorem count_of_not_requestsCancel {functions : List PqFunction} {function : PqFunction}
    (hf : function.requestsCancel = true)
    (h : ∀ f ∈ functions, f.requestsCancel = false) : functions.count function = 0 := by
  rw [List.count_eq_zero]
  intro hmem
  rw [h function hmem] at hf
  exact absurd hf Bool.false_ne_true

/-- The deadline check requests a cancel when the deadline has passed, and then once. -/
theorem Checked.count_cases {currentTime : Int} {task base : CronTask}
    {functions : List PqFunction} (h : Checked currentTime task base functions)
    {function : PqFunction} (hf : function.requestsCancel = true) :
    functions.count function = 0 ∨
      (task.overdue currentTime = true ∧ functions.count function ≤ 1) := by
  cases h with
  | within => exact Or.inl (count_of_not_requestsCancel hf (by decide))
  | cancelled hoverdue =>
    exact Or.inr ⟨hoverdue, List.nodup_iff_count_le_one.mp (by decide) function⟩

section Outcomes

variable {context : StepContext} {io : Replies} {task : CronTask} {turn : Turn}

/-- **A turn** requests a cancel only for a running query whose deadline has passed, and then
    once. -/
theorem Outcome.cancel_cases (h : Outcome context io task turn) {function : PqFunction}
    (hf : function.requestsCancel = true) :
    turn.calls.countP (Call.isUse function) = 0 ∨
      (task.state = .running ∧ task.overdue context.currentTime = true ∧
        turn.calls.countP (Call.isUse function) ≤ 1) := by
  -- the calls after the deadline check request nothing
  have hchecked : ∀ {base : CronTask} {functions more : List PqFunction} (rest : List Call),
      task.state = .running → Checked context.currentTime task base functions →
      (∀ f ∈ more, f.requestsCancel = false) → rest.countP (Call.isUse function) = 0 →
      (uses (functions ++ more) task.conn ++ rest).countP (Call.isUse function) = 0 ∨
        (task.state = .running ∧ task.overdue context.currentTime = true ∧
          (uses (functions ++ more) task.conn ++ rest).countP (Call.isUse function) ≤ 1) := by
    intro base functions more rest hstate hchecked hmore hrest
    rw [List.countP_append, countP_isUse_uses, List.count_append,
      count_of_not_requestsCancel hf hmore, hrest]
    exact (hchecked.count_cases hf).imp id fun hone => ⟨hstate, hone⟩
  have hplain : ∀ {functions : List PqFunction} {conn : Option Nat},
      (∀ f ∈ functions, f.requestsCancel = false) →
      (uses functions conn).countP (Call.isUse function) = 0 := by
    intro functions conn hfunctions
    rw [countP_isUse_uses, count_of_not_requestsCancel hf hfunctions]
  cases h with
  | removed hstate hactive => exact Or.inl rfl
  | idle hstate => exact Or.inl rfl
  | due hstate hpending => exact Or.inl rfl
  | refused job hjob hstate fmt args => exact Or.inl rfl
  | unusable job hjob hstate functions hcancel fmt args => exact Or.inl (hplain hcancel)
  | opened job hjob hstate => exact Or.inl (hplain (by decide))
  | failed hstate functions hcancel fmt args => exact Or.inl (hplain hcancel)
  | waits hstate functions hcancel pollingStatus => exact Or.inl (hplain hcancel)
  | connected hstate =>
    left
    show (uses _ _ ++ _).countP (Call.isUse function) = 0
    rw [List.countP_append, hplain (by decide)]
    rfl
  | sent job hjob hstate =>
    left
    show (uses _ _ ++ _).countP (Call.isUse function) = 0
    rw [List.countP_append, hplain (by decide)]
    rfl
  | unsent job hjob hstate fmt args =>
    left
    show (uses _ _ ++ _ ++ uses _ _).countP (Call.isUse function) = 0
    rw [List.countP_append, List.countP_append, hplain (by decide), hplain (by decide)]
    rfl
  | notCancelled hstate hoverdue functions hone fmt args cancelRequested runDeadline =>
    refine Or.inr ⟨hstate, hoverdue, ?_⟩
    show (uses functions task.conn).countP (Call.isUse function) ≤ 1
    rw [countP_isUse_uses]
    exact List.nodup_iff_count_le_one.mp hone function
  | runs hstate base functions more hcheck hcancel =>
    have hcases := hchecked [] hstate hcheck hcancel rfl
    rwa [List.append_nil] at hcases
  | unread hstate base functions more hcheck hcancel fmt args =>
    have hcases := hchecked [] hstate hcheck hcancel rfl
    rwa [List.append_nil] at hcases
  | succeeded hstate base functions more hcheck hcancel hread =>
    show (uses _ _ ++ _ ++ _).countP _ = 0 ∨ _ ∧ _ ∧ (uses _ _ ++ _ ++ _).countP _ ≤ 1
    rw [List.append_assoc]
    exact hchecked _ hstate hcheck hcancel (by simp [Call.isUse])
  | resultFailed hstate base functions more hcheck hcancel before after result busy hresults
      hbefore hfails fmt =>
    show (uses _ _ ++ _ ++ _).countP _ = 0 ∨ _ ∧ _ ∧ (uses _ _ ++ _ ++ _).countP _ ≤ 1
    rw [List.append_assoc]
    exact hchecked _ hstate hcheck hcancel (by simp [Call.isUse])
  | closed base hdone hbase =>
    left
    show (_ ++ _ : List Call).countP (Call.isUse function) = 0
    rw [List.countP_append]
    cases base.conn <;> by_cases hrun : base.runId = 0 <;> simp [hrun, Call.isUse]
  | reset hstate => exact Or.inl rfl

/-- **How a task gets to RUNNING**: its query was sent just now, with the limit that is set, or
    it was running already, and a cancel has been requested or nothing has changed. -/
theorem Outcome.running_cases (h : Outcome context io task turn) {task' : CronTask}
    (hkept : turn.fate = .kept task') (hstate' : task'.state = .running) :
    turn.run = task.runId ∧
      ((task.state = .sending ∧ (∃ job, .sendQuery task.conn job true ∈ turn.calls) ∧
          task'.runDeadline =
            timestampTzPlusMilliseconds context.currentTime context.statementTimeoutMs) ∨
        (task.state = .running ∧ (task'.cancelRequested = true ∨ (task' = task ∧
          ∀ function, function.requestsCancel = true →
            turn.calls.countP (Call.isUse function) = 0)))) := by
  cases h with
  | removed hstate hactive => cases hkept
  | idle hstate => cases hkept; rw [hstate] at hstate'; cases hstate'
  | due hstate hpending => cases hkept; cases hstate'
  | refused job hjob hstate fmt args => cases hkept; cases hstate'
  | unusable job hjob hstate functions hcancel fmt args => cases hkept; cases hstate'
  | opened job hjob hstate => cases hkept; cases hstate'
  | failed hstate functions hcancel fmt args => cases hkept; cases hstate'
  | waits hstate functions hcancel pollingStatus =>
    cases hkept
    rcases hstate with hs | hs <;>
      (change task.state = _ at hstate'; rw [hs] at hstate'; cases hstate')
  | connected hstate => cases hkept; cases hstate'
  -- the query is sent, and its deadline set
  | sent job hjob hstate =>
    cases hkept
    exact ⟨rfl, Or.inl ⟨hstate, ⟨job.command, by simp [Turn.keep]⟩, rfl⟩⟩
  | unsent job hjob hstate fmt args => cases hkept; cases hstate'
  | notCancelled hstate hoverdue functions hone fmt args cancelRequested runDeadline =>
    cases hkept; cases hstate'
  | runs hstate base functions more hcheck hcancel =>
    cases hkept
    refine ⟨hcheck.runId_eq, Or.inr ⟨hstate, ?_⟩⟩
    -- or it goes on, with the deadline kept or the cancel requested
    cases hcheck with
    | within =>
      refine Or.inr ⟨rfl, fun function hf => ?_⟩
      show (uses _ _).countP (Call.isUse function) = 0
      rw [countP_isUse_uses, List.count_append, count_of_not_requestsCancel hf hcancel,
        count_of_not_requestsCancel hf (by decide)]
    | cancelled hoverdue => exact Or.inl rfl
  | unread hstate base functions more hcheck hcancel fmt args => cases hkept; cases hstate'
  | succeeded hstate base functions more hcheck hcancel hread => cases hkept; cases hstate'
  | resultFailed hstate base functions more hcheck hcancel before after result busy hresults
      hbefore hfails fmt =>
    cases hkept; cases hstate'
  | closed base hdone hbase =>
    obtain ⟨-, rfl⟩ := manageError_kept hkept
    cases hstate'
  | reset hstate =>
    unfold manageDone at hkept
    split at hkept <;> (cases hkept; cases hstate')

end Outcomes

/-! ### Limits of runs -/

/-- No call of the entries opens a connection. -/
def NoConnect (entries : List Entry) : Prop :=
  ∀ e ∈ entries, ∀ params conn, e.call ≠ .connectStartParams params conn

/-- How often a libpq function is called. -/
def usesOf (function : PqFunction) (entries : List Entry) : Nat :=
  entries.countP fun e => e.call.isUse function

theorem usesOf_append (function : PqFunction) (entries more : List Entry) :
    usesOf function (entries ++ more) = usesOf function entries + usesOf function more :=
  List.countP_append

/-- The uses in a turn. -/
theorem usesOf_entries (function : PqFunction) (turn : Turn) (jobId currentTime : Int) :
    usesOf function (turn.entries jobId currentTime) =
      turn.calls.countP (Call.isUse function) := by
  unfold usesOf Turn.entries
  rw [List.countP_map]
  rfl

/-- Entries that connect nowhere write no limit. -/
theorem not_writes {entries : List Entry} (h : NoConnect entries) {e : Entry} (he : e ∈ entries)
    (limit : Int) : ¬e.writes limit := by
  rintro ⟨-, -, params, conn, hcall, -⟩
  exact h e he params conn hcall

/-- What a task knows of its time limit. -/
structure Limited (task : CronTask) (log : List Entry) : Prop where
  inTime : InTime log
  /-- no cancel has been requested yet -/
  unrequested : task.state = .connecting ∨ task.state = .sending ∨
      (task.state = .running ∧ task.cancelRequested = false) →
    ∀ function, function.requestsCancel = true → usesOf function log = 0
  /-- the deadline is not before the limit has passed -/
  deadline : task.state = .running → task.cancelRequested = false →
    ∃ s ∈ log, s.sends ∧ ∀ e ∈ log, ∀ limit, e.writes limit →
      0 < limit ∧ s.time + limit * 1000 ≤ task.runDeadline

/-- **Further calls** keep the time limit if they open no connection, and request a cancel only
    for a running query whose deadline has passed, and then once. -/
theorem Limited.append {task : CronTask} {log more : List Entry} {currentTime : Int}
    (h : Limited task log) (hconnect : NoConnect more)
    (hcancel : ∀ function, function.requestsCancel = true → usesOf function more = 0 ∨
      ((∀ e ∈ more, e.time = currentTime) ∧ task.state = .running ∧
        task.overdue currentTime = true ∧ usesOf function more ≤ 1)) :
    InTime (log ++ more) where
  written e he params conn hcall := by
    rcases List.mem_append.mp he with he | he
    · exact h.inTime.written e he params conn hcall
    · exact absurd hcall (hconnect e he params conn)
  timely e he function hf hcall e' he' limit hwrites := by
    have hold : e' ∈ log := by
      rcases List.mem_append.mp he' with he' | he'
      · exact he'
      · exact absurd hwrites (not_writes hconnect he' limit)
    rcases List.mem_append.mp he with he | he
    · obtain ⟨hpos, s, hs, hsends, hle⟩ :=
        h.inTime.timely e he function hf hcall e' hold limit hwrites
      exact ⟨hpos, s, List.mem_append_left _ hs, hsends, hle⟩
    · rcases hcancel function hf with hzero | ⟨htime, hstate, hoverdue, -⟩
      · rw [usesOf, List.countP_eq_zero] at hzero
        exact absurd hcall (hzero e he)
      · -- the deadline has passed, and it is not before the limit
        simp only [CronTask.overdue, timestampDifferenceExceeds_zero, Bool.and_eq_true,
          decide_eq_true_eq, Bool.not_eq_true'] at hoverdue
        obtain ⟨s, hs, hsends, hlimit⟩ := h.deadline hstate hoverdue.2
        obtain ⟨hpos, hle⟩ := hlimit e' hold limit hwrites
        refine ⟨hpos, s, List.mem_append_left _ hs, hsends, ?_⟩
        rw [htime e he]
        exact le_trans hle hoverdue.1.1
  once function hf := by
    show usesOf function (log ++ more) ≤ 1
    have hone : usesOf function log ≤ 1 := h.inTime.once function hf
    rw [usesOf_append]
    rcases hcancel function hf with hzero | ⟨-, hstate, hoverdue, hmore⟩
    · omega
    · simp only [CronTask.overdue, Bool.and_eq_true, Bool.not_eq_true'] at hoverdue
      have hnone := h.unrequested (Or.inr (Or.inr ⟨hstate, hoverdue.2⟩)) function hf
      omega

/-- The first calls of a run, the only ones that open a connection. -/
theorem inTime_start {w : World} (jobId : Int) {task : CronTask} {currentTime : Int} {gap : Nat}
    {io : Replies} {turn : Turn} (hstate : task.state = .start)
    (houtcome : Outcome (w.context task currentTime gap) io task turn) :
    InTime (turn.entries jobId currentTime) ∧
      ∀ function, function.requestsCancel = true →
        usesOf function (turn.entries jobId currentTime) = 0 := by
  -- START requests no cancel
  have hnone : ∀ function, function.requestsCancel = true →
      usesOf function (turn.entries jobId currentTime) = 0 := by
    intro function hf
    rw [usesOf_entries]
    rcases houtcome.cancel_cases hf with hzero | ⟨hrunning, -⟩
    · exact hzero
    · rw [hstate] at hrunning; cases hrunning
  refine ⟨⟨fun e he params conn hcall => ?_, fun e he function hf hcall => ?_,
    fun function hf => ?_⟩, hnone⟩
  · obtain ⟨call, hmem, rfl⟩ := List.mem_map.mp he
    refine ⟨w.statementTimeout.ms, w.statementTimeout.nonneg, w.statementTimeout.le_max,
      params, conn, hcall, ?_⟩
    change call = _ at hcall
    -- the only connection is the one of START
    rcases houtcome.mem_calls hmem with ⟨job, -, -, -, heq | ⟨conn', heq⟩⟩ |
      ⟨job, sent, -, -, heq⟩ | hplain
    · exact absurd (heq.symm.trans hcall) (by simp)
    · obtain ⟨rfl, -⟩ := Call.connectStartParams.inj (heq.symm.trans hcall)
      exact connectParams_options job w.statementTimeout.ms io.dbEncoding
    · exact absurd (heq.symm.trans hcall) (by simp)
    · rw [hcall] at hplain; cases hplain
  · have hzero := hnone function hf
    rw [usesOf, List.countP_eq_zero] at hzero
    exact absurd hcall (hzero e he)
  · have hzero := hnone function hf
    show usesOf function _ ≤ 1
    omega

/-- Only START opens a connection. -/
theorem noConnect_turn {w : World} {jobId : Int} {task : CronTask} {currentTime : Int}
    {gap : Nat} {io : Replies} {turn : Turn} (hstate : task.state ≠ .start)
    (houtcome : Outcome (w.context task currentTime gap) io task turn) :
    NoConnect (turn.entries jobId currentTime) := by
  intro e he params conn hcall
  obtain ⟨call, hmem, rfl⟩ := List.mem_map.mp he
  change call = _ at hcall
  rcases houtcome.mem_calls hmem with ⟨job, -, hstart, -⟩ | ⟨job, sent, -, -, heq⟩ | hplain
  · exact hstate hstart
  · exact absurd (heq.symm.trans hcall) (by simp)
  · rw [hcall] at hplain; cases hplain

/-- The entries of a turn have its time. -/
theorem time_of_mem_entries {turn : Turn} {jobId currentTime : Int} {e : Entry}
    (he : e ∈ turn.entries jobId currentTime) : e.time = currentTime := by
  obtain ⟨call, -, rfl⟩ := List.mem_map.mp he
  rfl

/-- A turn of a task with an open run keeps the time limit. -/
theorem Limited.turn {w : World} {jobId : Int} {task : CronTask} {currentTime : Int} {gap : Nat}
    {io : Replies} {turn : Turn} {log : List Entry} (h : Limited task log)
    (hstate : task.state ≠ .start)
    (houtcome : Outcome (w.context task currentTime gap) io task turn) :
    InTime (log ++ turn.entries jobId currentTime) := by
  apply h.append (noConnect_turn hstate houtcome)
  intro function hf
  rw [usesOf_entries]
  exact (houtcome.cancel_cases hf).imp id fun hone => ⟨fun e => time_of_mem_entries, hone⟩

/-- Calls that open no connection and request no cancel, of a task whose state and deadline
    stay. -/
theorem Limited.stays {task task' : CronTask} {log more : List Entry} (h : Limited task log)
    (hconnect : NoConnect more)
    (hnone : ∀ function, function.requestsCancel = true → usesOf function more = 0)
    (hstate : task'.state = task.state) (hrequested : task'.cancelRequested = task.cancelRequested)
    (hdeadline : task'.runDeadline = task.runDeadline) : Limited task' (log ++ more) where
  inTime := @Limited.append _ _ _ 0 h hconnect fun function hf => Or.inl (hnone function hf)
  unrequested hs function hf := by
    rw [hstate, hrequested] at hs
    rw [usesOf_append, h.unrequested hs function hf, hnone function hf]
  deadline hs hfree := by
    rw [hstate] at hs
    rw [hrequested] at hfree
    obtain ⟨s, hmem, hsends, hlimit⟩ := h.deadline hs hfree
    refine ⟨s, List.mem_append_left _ hmem, hsends, fun e he limit hwrites => ?_⟩
    rw [hdeadline]
    rcases List.mem_append.mp he with he | he
    · exact hlimit e he limit hwrites
    · exact absurd hwrites (not_writes hconnect he limit)

/-- **Every step keeps the time limit**, as long as SENDING reads no smaller setting. -/
theorem limited_rule : LogRule World.KeepsLimit (fun _ task log => Limited task log)
    (fun _ log => InTime log) where
  idles := by
    rintro jobs task task' log ⟨_, _, _, _, rfl⟩ h
    exact ⟨h.inTime, h.unrequested, h.deadline⟩
  reload := fun _ _ _ h => h
  socket := by
    intro jobs task log entries hsocket h
    apply h.stays _ _ rfl rfl rfl
    · intro e he params conn hcall
      have hs := hsocket e he
      rw [hcall] at hs
      exact hs
    · intro function hf
      rw [usesOf, List.countP_eq_zero]
      intro e he huse
      have hs := hsocket e he
      cases hc : e.call with
      | use f conn =>
        rw [hc] at hs huse
        obtain rfl : f = function := by simpa [Call.isUse] using huse
        cases f <;> first | exact (hs : False).elim | exact absurd hf Bool.false_ne_true
      | _ => rw [hc] at huse; cases huse
  waitFails := by
    intro jobs task log leftover fmt args pollingStatus hstate h
    exact ⟨h.inTime, fun hs => by simp [CronTask.fail] at hs,
      fun hs => by simp [CronTask.fail] at hs⟩
  turn := by
    intro w jobId task currentTime gap io log task' turn hok hg hold houtcome hlog hfresh hprior
      hkept hopen
    have htask := hok.tasks jobId task hold
    by_cases hstart : task.state = .start
    · -- the first turn of a run
      obtain ⟨hinTime, hnone⟩ := inTime_start jobId hstart houtcome
      rw [hfresh (openRun_of_not_inFlight (by rw [hstart]; rfl)), List.nil_append]
      refine ⟨hinTime, fun _ => hnone, fun hs => ?_⟩
      obtain ⟨-, ⟨hs', -⟩ | ⟨hs', -⟩⟩ := houtcome.running_cases hkept hs <;>
        (rw [hstart] at hs'; cases hs')
    · have hrun : task.openRun = some turn.run := by
        rcases houtcome.life htask (nextRunId_pos w.history gap) with
          ⟨-, -, hnone⟩ | ⟨hstate, -⟩ | ⟨hheld, -⟩
        · rw [hkept] at hnone
          rw [show task'.openRun = none from hnone] at hopen
          exact absurd hopen (by simp)
        · exact absurd hstate hstart
        · exact hheld
      have h := hprior (by rw [hrun]; rfl)
      -- outside of RUNNING a turn requests nothing
      have hnot : task.state ≠ .running → ∀ function, function.requestsCancel = true →
          usesOf function (turn.entries jobId currentTime) = 0 := by
        intro hstate function hf
        rw [usesOf_entries]
        exact (houtcome.cancel_cases hf).resolve_right fun hone => hstate hone.1
      refine ⟨h.turn hstart houtcome, fun hs function hf => ?_, fun hs hfree => ?_⟩
      · rw [usesOf_append]
        rcases or_assoc.mpr hs with hs | ⟨hs, hfree⟩
        · obtain ⟨-, ⟨hstate, -⟩ | ⟨hstate, -⟩⟩ := houtcome.connecting_cases hkept hs
          · exact absurd hstate hstart
          · have hne : task.state ≠ .running := by rcases hstate with h | h <;> rw [h] <;> decide
            rw [h.unrequested (or_assoc.mp (Or.inl hstate)) function hf, hnot hne function hf]
        · obtain ⟨-, ⟨hstate, -⟩ | ⟨hstate, hrequested | ⟨rfl, hnone⟩⟩⟩ :=
            houtcome.running_cases hkept hs
          · have hne : task.state ≠ .running := by rw [hstate]; decide
            rw [h.unrequested (Or.inr (Or.inl hstate)) function hf, hnot hne function hf]
          · rw [hfree] at hrequested; cases hrequested
          · rw [h.unrequested (Or.inr (Or.inr ⟨hstate, hfree⟩)) function hf, usesOf_entries,
              hnone function hf]
      · obtain ⟨hrunId, ⟨hstate, ⟨command, hsent⟩, hdeadline⟩ |
          ⟨hstate, hrequested | ⟨rfl, -⟩⟩⟩ := houtcome.running_cases hkept hs
        · -- the query is sent now, under the limit the guard speaks of
          refine ⟨⟨jobId, turn.run, currentTime, .sendQuery task.conn command true⟩,
            List.mem_append_right _ (List.mem_map.mpr ⟨_, hsent, rfl⟩), rfl, ?_⟩
          intro e he limit hwrites
          rw [hdeadline]
          rcases List.mem_append.mp he with he | he
          · rw [hlog, hrunId] at he
            obtain ⟨hpos, hle⟩ := hg task hold hstate e he limit hwrites
            refine ⟨hpos, ?_⟩
            show currentTime + limit * 1000 ≤ currentTime + w.statementTimeout.ms * 1000
            omega
          · exact absurd hwrites (not_writes (noConnect_turn hstart houtcome) he limit)
        · rw [hfree] at hrequested; cases hrequested
        · obtain ⟨s, hmem, hsends, hlimit⟩ := h.deadline hstate hfree
          refine ⟨s, List.mem_append_left _ hmem, hsends, fun e he limit hwrites => ?_⟩
          rcases List.mem_append.mp he with he | he
          · exact hlimit e he limit hwrites
          · exact absurd hwrites (not_writes (noConnect_turn hstart houtcome) he limit)
  ends := by
    intro w jobId task currentTime gap io log turn hok hg hold houtcome hlog hheld h hgiven
    apply h.turn _ houtcome
    intro hstart
    rw [openRun_of_not_inFlight (by rw [hstart]; rfl)] at hheld
    exact absurd hheld (by simp)

/-- **The time limits agree**: the worker requests a cancel of a run only when the limit it has
    written into the options of the connection is not 0 and has passed since the query was
    sent, and at most once, as long as SENDING reads no smaller setting. -/
theorem cancels_inTime (statementTimeout : StatementTimeout) (history : History)
    (ls : List Label)
    (hg : Machine.Guarded World.step World.KeepsLimit
      (World.launch statementTimeout history) ls) (r : Int) :
    InTime ((Machine.run World.step (World.launch statementTimeout history) ls).log r) := by
  have h := historyOk_run statementTimeout history ls
  have hrecorded := limited_rule.recorded statementTimeout history hg
  generalize Machine.run World.step (World.launch statementTimeout history) ls = w at *
  by_cases hstarted : .acquire r ∈ w.runLog
  · rcases hrecorded.cases hstarted with ⟨k, task, -, -, hlimited⟩ | ⟨-, hinTime⟩
    · exact hlimited.inTime
    · exact hinTime
  · rw [log_eq_nil h.filed hstarted]
    constructor
    · exact fun e he => absurd he (by simp)
    · exact fun e he => absurd he (by simp)
    · exact fun function _ => Nat.zero_le 1

/-! ### A setting that is not changed -/

/-- The setting is `statementTimeout`, and nothing else has been written. -/
structure Unchanged (statementTimeout : StatementTimeout) (w : World) : Prop where
  setting : w.statementTimeout = statementTimeout
  written : ∀ e ∈ w.trace, ∀ params conn, e.call = .connectStartParams params conn →
    params.options = optionsString statementTimeout.ms

/-- A step that is no SIGHUP keeps this. -/
theorem unchanged_step {statementTimeout : StatementTimeout} {w : World}
    (h : Unchanged statementTimeout w) {l : Label} (hl : ∀ s, l ≠ .sighup s) :
    Unchanged statementTimeout (w.step l) := by
  cases l with
  | invalidate => exact ⟨h.setting, h.written⟩
  | sighup s => exact absurd rfl (hl s)
  | reload source currentTime => exact ⟨h.setting, h.written⟩
  | startPending currentTime => exact ⟨h.setting, h.written⟩
  | deleteRuns gone => exact ⟨h.setting, h.written⟩
  | wait io =>
    obtain ⟨entries, htrace, hentries⟩ := trace_wait w io
    have hsetting : (w.waitForEvent io).statementTimeout = w.statementTimeout := by
      unfold World.waitForEvent
      dsimp only
      split <;> rfl
    -- a wait connects nowhere
    refine ⟨hsetting.trans h.setting, fun e he params conn hcall => ?_⟩
    change e ∈ (w.waitForEvent io).trace at he
    rw [htrace] at he
    rcases List.mem_append.mp he with he | he
    · exact h.written e he params conn hcall
    · obtain ⟨task, conn', -, -, -, -, huse⟩ := hentries e he
      exact absurd (huse.symm.trans hcall) (by simp)
  | manage jobId currentTime gap io =>
    show Unchanged statementTimeout (w.manage jobId currentTime gap io)
    cases hold : w.tasks.lookup jobId with
    | none => rw [manage_none hold]; exact h
    | some task =>
      rw [manage_eq hold]
      refine ⟨h.setting, fun e he params conn hcall => ?_⟩
      rcases List.mem_append.mp he with he | he
      · exact h.written e he params conn hcall
      · obtain ⟨call, hmem, rfl⟩ := List.mem_map.mp he
        change call = _ at hcall
        -- a connection is given the setting of this moment
        rcases (turn_outcome w task currentTime gap io).mem_calls hmem with
          ⟨job, -, -, -, heq | ⟨conn', heq⟩⟩ | ⟨job, sent, -, -, heq⟩ | hplain
        · exact absurd (heq.symm.trans hcall) (by simp)
        · obtain ⟨rfl, -⟩ := Call.connectStartParams.inj (heq.symm.trans hcall)
          rw [connectParams_options, ← h.setting]
          rfl
        · exact absurd (heq.symm.trans hcall) (by simp)
        · rw [hcall] at hplain; cases hplain

/-- **A positive setting that is not changed** keeps the limits of all runs. -/
theorem keepsLimit_of_unchanged {statementTimeout : StatementTimeout}
    (hpos : 0 < statementTimeout.ms) {w : World} (h : Unchanged statementTimeout w)
    {ls : List Label} (hls : ∀ l ∈ ls, ∀ s, l ≠ .sighup s) :
    Machine.Guarded World.step World.KeepsLimit w ls := by
  induction ls generalizing w with
  | nil => exact Machine.guarded_nil _ w
  | cons l ls ih =>
    refine ⟨?_, ih (unchanged_step h (hls l (by simp))) fun l hl => hls l (by simp [hl])⟩
    cases l with
    | manage jobId currentTime gap io =>
      intro task hold hstate e he limit hwrites
      have hwritten : e.writes statementTimeout.ms := by
        obtain ⟨-, -, params, conn, hcall, -⟩ := hwrites
        exact ⟨statementTimeout.nonneg, statementTimeout.le_max, params, conn, hcall,
          h.written e (mem_log he).1 params conn hcall⟩
      rw [writes_unique hwrites hwritten, h.setting]
      exact ⟨hpos, le_refl _⟩
    | _ => trivial

/-- A new worker has the settings it was started with. -/
theorem unchanged_launch (statementTimeout : StatementTimeout) (history : History) :
    Unchanged statementTimeout (World.launch statementTimeout history) :=
  ⟨rfl, fun e he => absurd he (by simp [World.launch])⟩

/-! ### A limit of 0 -/

/-- A run whose query is looked at right after it was sent. -/
def sentRun : List Label :=
  rereadRun (secondsRow (ascii "alice") (ascii "SELECT 1"))
    (secondsRow (ascii "alice") (ascii "SELECT 1")) ++ [.manage 7 6000000 0 smoothReplies]

/-- The theorem at the default setting. -/
theorem cancels_inTime_default :
    InTime ((Machine.run World.step (World.launch defaultTimeout emptyHistory) sentRun).log 1) := by
  apply cancels_inTime
  apply keepsLimit_of_unchanged (by decide) (unchanged_launch _ _)
  intro l hl s hs
  subst hs
  simp [sentRun, rereadRun, untilStart, afterStart] at hl

/-- With 0 the server sets no limit, and the worker requests a cancel at once. -/
theorem not_inTime_of_zero :
    ¬InTime ((Machine.run World.step
      (World.launch ⟨0, Int.le_refl _, by decide⟩ emptyHistory) sentRun).log 1) := by
  intro h
  have hlimit := h.timely ⟨7, 1, 6000000, .use .getCancel (some 1)⟩ (by decide +kernel)
    .getCancel rfl rfl
    ⟨7, 1, 6000000, .connectStartParams
      (connectParams (secondsJob (ascii "alice") (ascii "SELECT 1")) 0 (ascii "UTF8")) (some 1)⟩
    (by decide +kernel) 0
    ⟨Int.le_refl _, by decide, _, _, rfl, connectParams_options _ _ _⟩
  exact absurd hlimit.1 (by decide)

end NedoCron
