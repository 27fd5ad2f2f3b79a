import NedoCron.RunHistory

namespace NedoCron

/-!
# nedo_cron — the version of the job a run executes

START hands the user and the database of the loaded job to the connection and to the run's
row; SENDING looks the job up again and sends the command it finds then.  A reload in between
may have brought another row.

* `OneVersion` — every call of a run follows the job loaded at its START;
* `oneVersion_of_keepsCommands` — it does as long as no reload changes the command of a job
  whose task is CONNECTING or SENDING.
-/

/-! ### What is meant -/

/-- The step starts the run `r` with the loaded job `job`. -/
def World.Starts (w : World) (l : Label) (r : Int) (job : CronJob) : Prop :=
  ∃ jobId currentTime gap io task, l = .manage jobId currentTime gap io ∧
    w.tasks.lookup jobId = some task ∧ task.state = .start ∧
    getCronJob w.jobs task.jobId = some job ∧ w.history.nextRunId gap = r

/-- A call hands out the user, the database or the command of `job`. -/
def Call.Follows (job : CronJob) : Call → Prop
  | .insertRun _ _ database userName _ => database = job.database ∧ userName = job.userName
  | .connectStartParams params _ => params.dbname = job.database ∧ params.user = job.userName
  | .sendQuery _ command _ => command = job.command
  | _ => True

/-- Every run of the worker executes the version of its job that was loaded at its START. -/
def OneVersion (statementTimeout : StatementTimeout) (history : History) (ls : List Label) :
    Prop :=
  ∀ before l after r job, ls = before ++ l :: after →
    (Machine.run World.step (World.launch statementTimeout history) before).Starts l r job →
    ∀ e ∈ (Machine.run World.step (World.launch statementTimeout history) ls).trace,
      e.run = r → e.call.Follows job

/-- No reload brings another command for a job whose task is CONNECTING or SENDING; it may
    drop the job. -/
def World.KeepsCommands (w : World) : Label → Prop
  | .reload source _ => ∀ k task, w.tasks.lookup k = some task →
      task.state = .connecting ∨ task.state = .sending →
      ∀ job', (loadJobsList source.recoveryInProgress source.cronLoaded source.table).lookup k =
          some job' →
        ∃ job, w.jobs.lookup k = some job ∧ job'.command = job.command
  | _ => True

/-! ### What is done -/

/-- A call that hands out nothing follows any job. -/
theorem follows_of_isPlain {call : Call} (h : call.isPlain = true) (job : CronJob) :
    call.Follows job := by
  cases call with
  | insertRun runId jobId database userName startTime => cases h
  | connectStartParams params conn => cases h
  | sendQuery conn command sent => cases h
  | updatePID runId pid => trivial
  | finishRun runId status message endTime => trivial
  | getResult conn result busy => trivial
  | finish conn => trivial
  | use function conn => trivial

/-- While the run `r` is under way, its calls follow `job`, and until its query is sent the
    loaded job has the same command. -/
structure Version (r : Int) (job : CronJob) (jobs : Table Int CronJob) (task : CronTask)
    (log : List Entry) : Prop where
  follows : ∀ e ∈ log, e.call.Follows job
  loaded : task.state = .connecting ∨ task.state = .sending →
    ∀ job', getCronJob jobs task.jobId = some job' → job'.command = job.command

/-- A step starts a run with one job. -/
theorem starts_unique {w : World} {l : Label} {r : Int} {job job' : CronJob}
    (h : w.Starts l r job) (h' : w.Starts l r job') : job' = job := by
  obtain ⟨jobId, currentTime, gap, io, task, rfl, hold, -, hjob, -⟩ := h
  obtain ⟨jobId', currentTime', gap', io', task', heq, hold', -, hjob', -⟩ := h'
  obtain ⟨rfl, -, -, -⟩ := Label.manage.inj heq
  obtain rfl := Option.some.inj (hold.symm.trans hold')
  exact Option.some.inj (hjob'.symm.trans hjob)

/-- **The calls of one turn** follow the loaded job, which is the version of the run. -/
theorem follows_turn {w : World} {jobId : Int} {task : CronTask} {currentTime : Int} {gap : Nat}
    {io : Replies} {turn : Turn} {r : Int} {job : CronJob}
    (hold : w.tasks.lookup jobId = some task)
    (houtcome : Outcome (w.context task currentTime gap) io task turn) (hrun : turn.run = r)
    (hstarts : ∀ job', w.Starts (.manage jobId currentTime gap io) r job' → job' = job)
    (hsending : task.state = .sending →
      ∀ job', getCronJob w.jobs task.jobId = some job' → job'.command = job.command) :
    ∀ e ∈ turn.entries jobId currentTime, e.call.Follows job := by
  intro e he
  obtain ⟨call, hcall, rfl⟩ := List.mem_map.mp he
  show call.Follows job
  rcases houtcome.mem_calls hcall with ⟨job', hjob, hstate, hnew, hcases⟩ |
    ⟨job', sent, hjob, hstate, rfl⟩ | hplain
  · have hsame : job' = job :=
      hstarts job' ⟨jobId, currentTime, gap, io, task, rfl, hold, hstate, hjob,
        hnew.symm.trans hrun⟩
    rw [hsame] at hcases
    rcases hcases with rfl | ⟨conn, rfl⟩
    · exact ⟨rfl, rfl⟩
    · exact ⟨rfl, rfl⟩
  · exact hsending hstate job' hjob
  · exact follows_of_isPlain hplain job

/-- Steps that keep the version of the run `r`: the reloads that keep commands, and the one
    START of the run. -/
def World.KeepsVersion (r : Int) (job : CronJob) (w : World) (l : Label) : Prop :=
  w.KeepsCommands l ∧ ∀ job', w.Starts l r job' → job' = job

/-- **Every step** keeps the version of a run: from its START on, the connection and the query of
    the run follow the job that was loaded then, as long as no reload in between brings another. -/
theorem version_rule (r : Int) (job : CronJob) : LogRule (World.KeepsVersion r job)
    (fun jobs task log => task.runId = r → Version r job jobs task log)
    (fun r' log => r' = r → ∀ e ∈ log, e.call.Follows job) where
  idles := by
    intro jobs task task' log hidles h hrun
    -- the queue and the flags are no part of a version
    have hsame := hidles.sameRun
    rw [hsame.runId] at hrun
    obtain ⟨hfollows, hloaded⟩ := h hrun
    refine ⟨hfollows, ?_⟩
    rw [hsame.state, hsame.jobId]
    exact hloaded
  reload := by
    intro w source currentTime k task log hok hg hold h hrun
    obtain ⟨hfollows, hloaded⟩ := h hrun
    refine ⟨hfollows, fun hstate job' hjob' => ?_⟩
    have hkeyed := (hok.tasks k task hold).keyed
    rw [hkeyed] at hjob' hloaded
    -- a reload brings the same command, or drops the job
    obtain ⟨job₀, hjob₀, hcommand⟩ := hg.1 k task hold hstate job' hjob'
    rw [hcommand]
    exact hloaded hstate job₀ hjob₀
  socket := by
    intro jobs task log entries hsocket h hrun
    obtain ⟨hfollows, hloaded⟩ := h hrun
    refine ⟨fun e he => ?_, hloaded⟩
    rcases List.mem_append.mp he with he | he
    · exact hfollows e he
    · -- a wait hands out nothing
      have hs := hsocket e he
      cases hc : e.call with
      | use function conn => trivial
      | _ => rw [hc] at hs; exact absurd hs (by simp [Call.isSocket])
  waitFails := by
    intro jobs task log leftover fmt args pollingStatus hstate h hrun
    exact ⟨(h hrun).follows, fun hs => absurd hs (by simp [CronTask.fail])⟩
  turn := by
    intro w jobId task currentTime gap io log task' turn hok hg hold houtcome hlog hfresh hprior
      hkept hopen hrun
    have htask := hok.tasks jobId task hold
    have hfate : turn.fate.openRun = some r := by
      rw [hkept]
      obtain ⟨r', hr'⟩ := Option.isSome_iff_exists.mp hopen
      rw [← hrun, runId_of_openRun hr']
      exact hr'
    rcases houtcome.life htask (nextRunId_pos w.history gap) with
      ⟨-, -, hnone⟩ | ⟨hstart, hnone, hnew, hopens⟩ | ⟨hheld, hcases⟩
    · -- a turn that leaves no run open is none of those
      rw [hnone] at hfate; exact absurd hfate (by simp)
    · -- the run is started by this turn
      have hnewRun : turn.run = r := by rw [hnew]; exact Option.some.inj (hopens.symm.trans hfate)
      have hidle : ¬(task.state = .connecting ∨ task.state = .sending) := by
        rw [hstart]
        decide
      refine ⟨?_, fun hstate' job' hjob' => ?_⟩
      · rw [hfresh hnone, List.nil_append]
        exact follows_turn hold houtcome hnewRun hg.2 fun hs => absurd (Or.inr hs) hidle
      · obtain ⟨hjobId, ⟨hstate, -⟩ | ⟨hstate, -⟩⟩ := houtcome.connecting_cases hkept hstate'
        · rw [hjobId] at hjob'
          rw [hg.2 job' ⟨jobId, currentTime, gap, io, task, rfl, hold, hstate, hjob',
            hnew.symm.trans hnewRun⟩]
        · exact absurd hstate hidle
    · -- the run goes on
      have hsame : turn.run = r := by
        rcases hcases with heq | heq
        · exact Option.some.inj (heq.symm.trans hfate)
        · rw [heq] at hfate; exact absurd hfate (by simp)
      obtain ⟨hfollows, hloaded⟩ :=
        hprior (by rw [hheld]; rfl) ((runId_of_openRun hheld).trans hsame)
      refine ⟨fun e he => ?_, fun hstate' => ?_⟩
      · rcases List.mem_append.mp he with he | he
        · exact hfollows e he
        · exact follows_turn hold houtcome hsame hg.2 (fun hs => hloaded (Or.inr hs)) e he
      · obtain ⟨hjobId, ⟨hstate, -⟩ | ⟨hstate, -⟩⟩ := houtcome.connecting_cases hkept hstate'
        · rw [openRun_of_not_inFlight (by rw [hstate]; rfl)] at hheld
          exact absurd hheld (by simp)
        · rw [hjobId]
          exact hloaded hstate
  ends := by
    intro w jobId task currentTime gap io log turn hok hg hold houtcome hlog hheld hprior hgiven
      hrun e he
    obtain ⟨hfollows, hloaded⟩ := hprior ((runId_of_openRun hheld).trans hrun)
    rcases List.mem_append.mp he with he | he
    · exact hfollows e he
    · exact follows_turn hold houtcome hrun hg.2 (fun hs => hloaded (Or.inr hs)) e he

/-- A run that is started is known from then on. -/
theorem started_of_starts {w : World} {l : Label} {r : Int} {job : CronJob}
    (h : w.Starts l r job) : .acquire r ∈ (w.step l).runLog := by
  obtain ⟨jobId, currentTime, gap, io, task, rfl, hold, hstate, hjob, hrun⟩ := h
  show .acquire r ∈ (w.manage jobId currentTime gap io).runLog
  rw [runLog_manage hold]
  rcases (turn_outcome w task currentTime gap io).insertion with
    ⟨job', rest, -, -, hcalls, -⟩ | ⟨hnot, -⟩
  · apply List.mem_append_right
    rw [hcalls, ← hrun]
    exact List.mem_cons_self
  · refine absurd ⟨hstate, ?_⟩ hnot
    rw [show (w.context task currentTime gap).job = some job from hjob]
    rfl

/-- A run is started once. -/
theorem not_starts_of_started {w : World} (hok : WorldOk w) {r : Int}
    (h : .acquire r ∈ w.runLog) (l : Label) (job : CronJob) : ¬w.Starts l r job := by
  rintro ⟨jobId, currentTime, gap, io, task, rfl, -, -, -, hrun⟩
  have hle := started_le hok h
  unfold History.nextRunId at hrun
  omega

/-- **A run executes one version of its job**, as long as no reload changes the command of a
    job whose task is CONNECTING or SENDING. -/
theorem oneVersion_of_keepsCommands (statementTimeout : StatementTimeout) (history : History)
    (ls : List Label)
    (hg : Machine.Guarded World.step World.KeepsCommands
      (World.launch statementTimeout history) ls) :
    OneVersion statementTimeout history ls := by
  rintro before l after r job rfl hstarts e he hrun
  have h := historyOk_run statementTimeout history before
  rw [Machine.run_append] at he
  have hafter := ((Machine.guarded_append _ _ before (l :: after)).mp hg).2
  generalize Machine.run World.step (World.launch statementTimeout history) before = w at *
  -- before its START nothing is known of the run
  have hunknown : .acquire r ∉ w.runLog :=
    fun hknown => not_starts_of_started h.ok hknown l job hstarts
  have hfresh : w.Recorded (fun jobs task log => task.runId = r → Version r job jobs task log)
      (fun r' log => r' = r → ∀ e ∈ log, e.call.Follows job) := by
    constructor
    · intro k task r' hlookup hopen hrunId
      refine absurd (started_of_heldRun h.ok (k := k) ?_) hunknown
      rw [heldRun_of_lookup hlookup, hopen, ← hrunId, runId_of_openRun hopen]
    · rintro r' hknown - rfl
      exact absurd hknown hunknown
  -- the steps from START on keep the version
  have hknown := started_of_starts hstarts
  have hguard : Machine.Guarded World.step (World.KeepsVersion r job) w (l :: after) := by
    refine ⟨⟨hafter.1, fun job' => starts_unique hstarts⟩, ?_⟩
    -- once started, a run is not started again
    have hlater := Machine.guarded_of_invariant
      (P := fun w => WorldOk w ∧ .acquire r ∈ w.runLog)
      (fun _ l h => ⟨h.1.step l, runLog_step h.2 l⟩) after ⟨h.ok.step l, hknown⟩
    apply Machine.guarded_mono _ (Machine.guarded_and hafter.2 hlater)
    rintro w' l' ⟨hkeeps, hok, hknown'⟩
    exact ⟨hkeeps, fun job' hstarts' => absurd hstarts' (not_starts_of_started hok hknown' l' job')⟩
  obtain ⟨hok, -, hrecorded⟩ := Machine.guarded_induction
    (P := fun w => WorldOk w ∧ w.Filed ∧
      w.Recorded (fun jobs task log => task.runId = r → Version r job jobs task log)
        (fun r' log => r' = r → ∀ e ∈ log, e.call.Follows job))
    (fun _ l hg h => ⟨h.1.step l, filed_step h.1 h.2.1 l,
      (version_rule r job).step h.1 h.2.1 h.2.2 l hg⟩)
    hguard ⟨h.ok, h.filed, hfresh⟩
  have hstarted : .acquire r ∈ (Machine.run World.step w (l :: after)).runLog :=
    Machine.run_induction (P := fun w : World => .acquire r ∈ w.runLog)
      (fun _ l h => runLog_step h l) after hknown
  have hlog : e ∈ (Machine.run World.step w (l :: after)).log r := by
    simpa [World.log] using ⟨he, hrun⟩
  rcases hrecorded.cases hstarted with ⟨k, task, -, hopen, hversion⟩ | ⟨-, hfollows⟩
  · exact (hversion (runId_of_openRun hopen)).follows e hlog
  · exact hfollows rfl e hlog

/-! ### A row that is replaced -/

/-- Replies under which every step of a run goes well, up to the query that is running. -/
def smoothReplies : Replies where
  timestamp := 0
  dbEncoding := ascii "UTF8"
  connection := true
  setnonblocking := 0
  statusBad := false
  errorMessage := []
  connectPoll := .ok
  backendPID := 100
  sendQuery := 1
  getCancel := true
  cancel := 1
  cancelError := []
  consumeInput := 1
  isBusy := true
  results := []
  lastBusy := false
  leftover := []

/-- A wait that ends with every socket ready. -/
def readyWait (timestamp : Int) : WaitReplies where
  timestamp := timestamp
  socket _ := 3
  ready _ := true
  leftover := []

/-- The row of a job that runs every five seconds. -/
def secondsRow (userName command : CString) : JobRow where
  jobid := 7
  schedule := ascii "5 seconds"
  command := command
  nodename := ascii "localhost"
  nodeport := 5432
  database := ascii "postgres"
  username := userName

/-- The job of such a row. -/
def secondsJob (userName command : CString) : CronJob where
  jobId := 7
  scheduleText := ascii "5 seconds"
  schedule := (parse (ascii "5 seconds")).getD CronSchedule.zero
  command := command
  nodeName := ascii "localhost"
  nodePort := 5432
  database := ascii "postgres"
  userName := userName

/-- A reload that finds one row. -/
def oneRow (row : JobRow) : ReloadSource where
  recoveryInProgress := false
  cronLoaded := true
  table := ⟨[row], List.nodup_singleton _⟩
  entry _ := clearedEntry

/-- The default of `nedo_cron.statement_timeout_ms`. -/
def defaultTimeout : StatementTimeout := ⟨10000, by decide, by decide⟩

/-- A history without rows. -/
def emptyHistory : History := ⟨∅, 0, le_refl _, by simp⟩

/-- The steps up to the START of a run of the job. -/
def untilStart (row : JobRow) : List Label :=
  [.reload (oneRow row) 0, .startPending 1000000, .startPending 6000000,
    .manage 7 6000000 0 smoothReplies]

/-- The row is read again between START and SENDING. -/
def afterStart (row : JobRow) : List Label :=
  [.reload (oneRow row) 6000000, .wait (readyWait 6000000), .manage 7 6000000 0 smoothReplies,
    .wait (readyWait 6000000), .manage 7 6000000 0 smoothReplies]

/-- A run with the row `row` before START and `row'` after it. -/
def rereadRun (row row' : JobRow) : List Label :=
  untilStart row ++ .manage 7 6000000 0 smoothReplies :: afterStart row'

/-- The theorem at a run whose row is read again unchanged. -/
theorem oneVersion_of_keepsCommands_unchanged :
    OneVersion defaultTimeout emptyHistory
      (rereadRun (secondsRow (ascii "alice") (ascii "SELECT 1"))
        (secondsRow (ascii "alice") (ascii "SELECT 1"))) := by
  apply oneVersion_of_keepsCommands
  refine ⟨fun k task h => absurd h (by simp [World.launch]), trivial, trivial, trivial, trivial,
    fun k task _ _ job' hjob' => ⟨job', ?_, rfl⟩, trivial, trivial, trivial, trivial, trivial⟩
  exact hjob'

/-- Bob replaces the row of Alice while her connection is being opened: his command is sent on
    it. -/
theorem not_oneVersion :
    ¬OneVersion defaultTimeout emptyHistory
      (rereadRun (secondsRow (ascii "alice") (ascii "SELECT 1"))
        (secondsRow (ascii "bob") (ascii "SELECT 2"))) := by
  intro hone
  have hstarts : (Machine.run World.step (World.launch defaultTimeout emptyHistory)
      (untilStart (secondsRow (ascii "alice") (ascii "SELECT 1")))).Starts
      (.manage 7 6000000 0 smoothReplies) 1 (secondsJob (ascii "alice") (ascii "SELECT 1")) :=
    ⟨7, 6000000, 0, smoothReplies,
      { initCronTask clearedEntry 7 with state := .start, nextRunTime := 11000000 },
      rfl, by decide +kernel, rfl, by decide +kernel, by decide +kernel⟩
  have hsent := hone _ _ _ 1 _ rfl hstarts
    ⟨7, 1, 6000000, .sendQuery (some 1) (ascii "SELECT 2") true⟩ (by decide +kernel) rfl
  have hsame : ascii "SELECT 2" = ascii "SELECT 1" := hsent
  exact absurd hsame (by decide)

end NedoCron
