import NedoCron.MemorySafety
import NedoCron.OneVersion
import NedoCron.Reload

namespace NedoCron.Memory

/-!
# nedo_cron — the memory of a reload (`cron_job.c`)

`ReloadCronJobs` over the heap: the context of the loaded jobs is reset, a hash table is created
in it, for each row the strings of its job are allocated there again and a cell is added to the
list of jobs, and the tasks of the jobs are entered in the hash table of the tasks, which is in a
context of its own.  What is in use in the context of the jobs afterwards depends on the rows
alone, however many reloads came before, and every string that a loaded job points to is in use.
-/

open Heap

/-! ### Loading jobs -/

/-- Read a schedule. -/
def loadSchedule (p : Nat) : Mem CronSchedule := do
  match (← load p).content with
  | .schedule s => pure s
  | _ => undefined

/-- `TextDatumGetCString` in the context of the loaded jobs. -/
def textDatumGetCString (s : CString) : Mem Nat := palloc .cronJobContext (.string s)

/-- `CreateCronJobHashTable`. -/
def createCronJobHashTable : Mem Nat := palloc .cronJobContext (.jobTable ∅)

/-- `hash_search(CronJobHashTable, …, HASH_ENTER, …)`, and what is assigned to the entry. -/
def enterJob (jobTable : Nat) (job : LoadedJob) : Mem Unit := do
  let block ← load jobTable
  match block.content with
  | .jobTable jobs => store jobTable { block with content := .jobTable (jobs.insert job.jobId job) }
  | _ => undefined

/-- `TupleToJob`: the copy of the schedule text that was parsed stays, and the entry gets one of
    its own. -/
def tupleToJob (jobTable : Nat) (row : JobRow) : Mem (Option Int) := do
  let scheduleText ← textDatumGetCString row.schedule
  let parsed ← parseWithError .cronJobContext (some scheduleText) (some ⟨[], [], 0, 0⟩)
  match parsed.1 with
  | none => return none
  | some p =>
    let command ← textDatumGetCString row.command
    let scheduleText ← textDatumGetCString row.schedule
    let schedule ← loadSchedule p
    let nodeName ← textDatumGetCString row.nodename
    let database ← textDatumGetCString row.database
    let userName ← textDatumGetCString row.username
    enterJob jobTable
      ⟨row.jobid, scheduleText, schedule, command, nodeName, row.nodeport, database, userName⟩
    freeCronSchedule (some p)
    return some row.jobid

/-- `lappend` in the context of the loaded jobs; an empty list is `NIL`. -/
def lappend (jobs : Option Nat) (job : Int) : Mem Nat :=
  match jobs with
  | none => palloc .cronJobContext (.jobList [job])
  | some list => do
    let block ← load list
    match block.content with
    | .jobList jobs =>
      store list { block with content := .jobList (jobs ++ [job]) }
      return list
    | _ => undefined

/-- The rows in order. -/
def loadRows (jobTable : Nat) : (jobs : Option Nat) → List JobRow → Mem (Option Nat)
  | jobs, [] => pure jobs
  | jobs, row :: rows => do
    match ← tupleToJob jobTable row with
    | none => loadRows jobTable jobs rows
    | some job => loadRows jobTable (some (← lappend jobs job)) rows

/-- `LoadJobsList`. -/
def loadJobsList (jobTable : Nat) (recoveryInProgress cronLoaded : Bool) (table : JobsTable) :
    Mem (Option Nat) :=
  if recoveryInProgress || !cronLoaded then pure none else loadRows jobTable none table.rows

/-! ### The tasks -/

/-- Change the hash table of the tasks. -/
def updateTasks (taskTable : Nat) (f : Table Int CronTask → Table Int CronTask) : Mem Unit := do
  let block ← load taskTable
  match block.content with
  | .taskTable tasks => store taskTable { block with content := .taskTable (f tasks) }
  | _ => undefined

/-- The jobs of a list. -/
def loadList : Option Nat → Mem (List Int)
  | none => pure []
  | some list => do
    match (← load list).content with
    | .jobList jobs => pure jobs
    | _ => undefined

/-- The loop over the loaded jobs. -/
def activateTasks (taskTable : Nat) (entry : Int → CronTask) : List Int → Mem Unit
  | [] => pure ()
  | job :: jobs => do
    updateTasks taskTable fun tasks => activateTask entry tasks job
    activateTasks taskTable entry jobs

/-- `ReloadCronJobs`; it returns the new `CronJobHashTable`. -/
def reloadCronJobs (taskTable : Nat) (source : ReloadSource) : Mem Nat := do
  -- MemoryContextReset(CronJobContext)
  release fun b => b.context == .cronJobContext
  let jobTable ← createCronJobHashTable
  updateTasks taskTable (Table.mapEntries fun _ task => { task with isActive := false })
  let jobs ← loadJobsList jobTable source.recoveryInProgress source.cronLoaded source.table
  activateTasks taskTable source.entry (← loadList jobs)
  return jobTable

/-! ### Strings of a job -/

/-- The strings of a row that stay in use. -/
def keptStrings (row : JobRow) : List CString :=
  match row.toJob with
  | none => [row.schedule]
  | some _ =>
    [row.schedule, row.command, row.schedule, row.nodename, row.database, row.username]

/-- The job's strings are among the strings `ss` at the addresses `ps`. -/
structure LoadedJob.Among (ps : List Nat) (ss : List CString) (loaded : LoadedJob)
    (job : CronJob) : Prop where
  jobId : loaded.jobId = job.jobId
  schedule : loaded.schedule = job.schedule
  nodePort : loaded.nodePort = job.nodePort
  scheduleText : (loaded.scheduleText, job.scheduleText) ∈ ps.zip ss
  command : (loaded.command, job.command) ∈ ps.zip ss
  nodeName : (loaded.nodeName, job.nodeName) ∈ ps.zip ss
  database : (loaded.database, job.database) ∈ ps.zip ss
  userName : (loaded.userName, job.userName) ∈ ps.zip ss

/-- The two tables hold the same jobs. -/
def Matches (ps : List Nat) (ss : List CString) (loaded : Table Int LoadedJob)
    (jobs : Table Int CronJob) : Prop :=
  ∀ k, Option.Rel (LoadedJob.Among ps ss) (loaded.lookup k) (jobs.lookup k)

/-- One more string behind the others. -/
theorem mem_zip_append {ps qs : List Nat} {ss ts : List CString} (hlength : ps.length = ss.length)
    {p : Nat} {s : CString} (h : (p, s) ∈ ps.zip ss) : (p, s) ∈ (ps ++ qs).zip (ss ++ ts) := by
  rw [List.zip_append hlength]
  exact List.mem_append_left _ h

/-- More strings do no harm to a job that has its own. -/
theorem LoadedJob.Among.append {ps qs : List Nat} {ss ts : List CString}
    (hlength : ps.length = ss.length) {loaded : LoadedJob} {job : CronJob}
    (h : loaded.Among ps ss job) : loaded.Among (ps ++ qs) (ss ++ ts) job where
  jobId := h.jobId
  schedule := h.schedule
  nodePort := h.nodePort
  scheduleText := mem_zip_append hlength h.scheduleText
  command := mem_zip_append hlength h.command
  nodeName := mem_zip_append hlength h.nodeName
  database := mem_zip_append hlength h.database
  userName := mem_zip_append hlength h.userName

/-- More strings do no harm to a table of such jobs. -/
theorem Matches.append {ps qs : List Nat} {ss ts : List CString} (hlength : ps.length = ss.length)
    {loaded : Table Int LoadedJob} {jobs : Table Int CronJob} (h : Matches ps ss loaded jobs) :
    Matches (ps ++ qs) (ss ++ ts) loaded jobs := by
  intro k
  have hk := h k
  generalize loaded.lookup k = a at hk ⊢
  generalize jobs.lookup k = b at hk ⊢
  cases hk with
  | none => exact .none
  | some hamong => exact .some (hamong.append hlength)

/-- One more job that has its strings. -/
theorem Matches.insert {ps : List Nat} {ss : List CString} {loaded : Table Int LoadedJob}
    {jobs : Table Int CronJob} (h : Matches ps ss loaded jobs) {k : Int} {l : LoadedJob}
    {job : CronJob} (hamong : l.Among ps ss job) :
    Matches ps ss (loaded.insert k l) (jobs.insert k job) := by
  intro k'
  by_cases hk : k' = k
  · subst hk
    rw [AList.lookup_insert, AList.lookup_insert]
    exact .some hamong
  · rw [AList.lookup_insert_ne hk, AList.lookup_insert_ne hk]
    exact h k'

/-! ### Tables and lists -/

/-- The table of the loaded jobs. -/
def jobTableAt (jobTable : Nat) (loaded : Table Int LoadedJob) : Assertion Block :=
  pointsTo jobTable ⟨.cronJobContext, .jobTable loaded⟩

/-- The table of the tasks. -/
def taskTableAt (taskTable : Nat) (tasks : Table Int CronTask) : Assertion Block :=
  pointsTo taskTable ⟨.cronTaskContext, .taskTable tasks⟩

/-- The list of the loaded jobs; only the empty one takes no block. -/
def jobListAt : Option Nat → List Int → Assertion Block
  | none, [] => emp
  | some list, job :: jobs => pointsTo list ⟨.cronJobContext, .jobList (job :: jobs)⟩
  | _, _ => fun _ => False

section Tables

variable {P : Assertion Block}

/-- An entry is added to the table. -/
theorem triple_enterJob (jobTable : Nat) (loaded : Table Int LoadedJob) (job : LoadedJob) :
    Triple (sep (jobTableAt jobTable loaded) P) (enterJob jobTable job)
      fun _ => sep (jobTableAt jobTable (loaded.insert job.jobId job)) P :=
  (tidy_load ((holds_pointsTo _ _).left P)).then_triple (triple_store _ _ _)

/-- A cell is added to the list. -/
theorem triple_lappend (jobs : Option Nat) (keys : List Int) (job : Int) :
    Triple (sep (jobListAt jobs keys) P) (lappend jobs job)
      fun list => sep (jobListAt (some list) (keys ++ [job])) P := by
  cases jobs with
  | none =>
    cases keys with
    | nil =>
      show Triple (sep emp P) _ _
      rw [emp_sep]
      exact triple_alloc _
    | cons key keys => exact fun h ⟨_, _, _, hfalse, _⟩ => absurd hfalse id
  | some list =>
    cases keys with
    | nil => exact fun h ⟨_, _, _, hfalse, _⟩ => absurd hfalse id
    | cons key keys =>
      refine (tidy_load ((holds_pointsTo _ _).left P)).then_triple ?_
      exact triple_bind (triple_store _ _ _) fun _ => triple_pure fun f hf => hf

/-- Reading the list. -/
theorem tidy_loadList {jobs : Option Nat} {keys : List Int} :
    Tidy (sep (jobListAt jobs keys) P) (loadList jobs) keys := by
  cases jobs with
  | none =>
    cases keys with
    | nil => exact tidy_pure _ _
    | cons key keys => exact fun h ⟨_, _, _, hfalse, _⟩ => absurd hfalse id
  | some list =>
    cases keys with
    | nil => exact fun h ⟨_, _, _, hfalse, _⟩ => absurd hfalse id
    | cons key keys => exact (tidy_load ((holds_pointsTo _ _).left P)).bind (tidy_pure _ _)

/-- Changing the table of the tasks. -/
theorem triple_updateTasks (taskTable : Nat) (tasks : Table Int CronTask)
    (f : Table Int CronTask → Table Int CronTask) :
    Triple (sep (taskTableAt taskTable tasks) P) (updateTasks taskTable f)
      fun _ => sep (taskTableAt taskTable (f tasks)) P :=
  (tidy_load ((holds_pointsTo _ _).left P)).then_triple (triple_store _ _ _)

/-- The tasks of the loaded jobs are activated one by one. -/
theorem triple_activateTasks (taskTable : Nat) (entry : Int → CronTask) (jobs : List Int)
    (tasks : Table Int CronTask) :
    Triple (sep (taskTableAt taskTable tasks) P) (activateTasks taskTable entry jobs)
      fun _ => sep (taskTableAt taskTable (jobs.foldl (activateTask entry) tasks)) P := by
  induction jobs generalizing tasks with
  | nil => exact triple_pure fun f hf => hf
  | cons job jobs ih =>
    exact triple_bind (triple_updateTasks taskTable tasks _) fun _ => ih _

end Tables

/-! ### One row -/

section Rows

variable {ps : List Nat} {ss : List CString} {P : Assertion Block}

/-- A string is put behind the others. -/
theorem triple_textDatumGetCString (hlength : ps.length = ss.length) (s : CString) :
    Triple (sep (stringsAt .cronJobContext ps ss) P) (textDatumGetCString s)
      fun p => sep (stringsAt .cronJobContext (ps ++ [p]) (ss ++ [s])) P := by
  refine triple_post (triple_alloc _) fun p f hf => ?_
  rwa [stringsAt_snoc hlength, sep_assoc]

/-- The string that has come last. -/
theorem holds_last (hlength : ps.length = ss.length) (p : Nat) (s : CString) :
    Holds (sep (stringsAt .cronJobContext (ps ++ [p]) (ss ++ [s])) P) p
      ⟨.cronJobContext, .string s⟩ := by
  refine (holds_stringsAt (i := ps.length) ?_ ?_).left P
  · simp
  · simp [hlength]

/-- Reading a schedule. -/
theorem tidy_loadSchedule {p : Nat} {schedule : CronSchedule} {context : MemoryContext}
    (h : Holds P p ⟨context, .schedule schedule⟩) : Tidy P (loadSchedule p) schedule :=
  (tidy_load h).bind (tidy_pure P schedule)

/-- **`TupleToJob`** on the heap. -/
theorem triple_tupleToJob (hlength : ps.length = ss.length) {loaded : Table Int LoadedJob}
    {jobs : Table Int CronJob} (hmatches : Matches ps ss loaded jobs) (jobTable : Nat)
    (row : JobRow) :
    Triple (sep (stringsAt .cronJobContext ps ss) (sep (jobTableAt jobTable loaded) P))
      (tupleToJob jobTable row) fun r f =>
        r = row.toJob.map CronJob.jobId ∧ ∃ qs, qs.length = (ss ++ keptStrings row).length ∧
          ∃ loaded', Matches qs (ss ++ keptStrings row) loaded' (NedoCron.tupleToJob jobs row) ∧
            sep (stringsAt .cronJobContext qs (ss ++ keptStrings row))
              (sep (jobTableAt jobTable loaded') P) f := by
  refine triple_bind (triple_textDatumGetCString hlength row.schedule) fun p₁ => ?_
  refine triple_bind (triple_parseWithError (holds_last hlength p₁ row.schedule) _) fun r => ?_
  refine triple_ofParsed (fun hnone hresult => ?_) fun p schedule hsome hresult => ?_
  · have hrow : row.toJob = none := by
      unfold JobRow.toJob
      rw [hresult]
      rfl
    rw [hnone]
    refine triple_pure fun f hf => ?_
    unfold NedoCron.tupleToJob keptStrings
    rw [hrow]
    exact ⟨rfl, ps ++ [p₁], by simp [hlength], loaded, hmatches.append hlength, hf⟩
  · have hrow : row.toJob = some ⟨row.jobid, row.schedule, schedule, row.command, row.nodename,
        row.nodeport, row.database, row.username⟩ := by
      unfold JobRow.toJob
      rw [hresult]
      rfl
    rw [hsome, sep_left_comm]
    dsimp only
    -- the entry's own strings follow the copy that was parsed
    have h₁ := length_snoc hlength p₁ row.schedule
    refine triple_bind (triple_textDatumGetCString h₁ row.command) fun p₂ => ?_
    have h₂ := length_snoc h₁ p₂ row.command
    refine triple_bind (triple_textDatumGetCString h₂ row.schedule) fun p₃ => ?_
    have h₃ := length_snoc h₂ p₃ row.schedule
    refine (tidy_loadSchedule (((holds_pointsTo p _).left _).right _)).then_triple ?_
    refine triple_bind (triple_textDatumGetCString h₃ row.nodename) fun p₄ => ?_
    have h₄ := length_snoc h₃ p₄ row.nodename
    refine triple_bind (triple_textDatumGetCString h₄ row.database) fun p₅ => ?_
    have h₅ := length_snoc h₄ p₅ row.database
    refine triple_bind (triple_textDatumGetCString h₅ row.username) fun p₆ => ?_
    -- the entry is made, and the schedule is freed
    rw [sep_left_comm (pointsTo p _), sep_left_comm (stringsAt _ _ _)]
    refine triple_bind (triple_enterJob jobTable loaded _) fun _ => ?_
    rw [sep_left_comm (stringsAt _ _ _), sep_left_comm (jobTableAt _ _)]
    refine triple_bind (triple_free p _) fun _ => triple_pure fun f hf => ?_
    rw [sep_left_comm] at hf
    unfold NedoCron.tupleToJob keptStrings
    rw [hrow]
    dsimp only
    simp only [List.append_assoc, List.cons_append, List.nil_append] at hf
    have hzip : (ps ++ [p₁, p₂, p₃, p₄, p₅, p₆]).zip (ss ++ [row.schedule, row.command,
        row.schedule, row.nodename, row.database, row.username]) =
        ps.zip ss ++ [(p₁, row.schedule), (p₂, row.command), (p₃, row.schedule),
          (p₄, row.nodename), (p₅, row.database), (p₆, row.username)] := by
      rw [List.zip_append hlength]
      rfl
    refine ⟨rfl, _, by simp [hlength], _, (hmatches.append hlength).insert ?_, hf⟩
    constructor <;> (try rw [hzip]) <;> simp

/-- The ids of the rows that become jobs. -/
def jobIds (rows : List JobRow) : List Int := rows.filterMap fun row => row.toJob.map CronJob.jobId

/-- **`LoadJobsList`** on the heap: row by row. -/
theorem triple_loadRows (hlength : ps.length = ss.length) {loaded : Table Int LoadedJob}
    {jobs : Table Int CronJob} (hmatches : Matches ps ss loaded jobs) (jobTable : Nat)
    (list : Option Nat) (keys : List Int) (rows : List JobRow) :
    Triple (sep (stringsAt .cronJobContext ps ss)
        (sep (jobTableAt jobTable loaded) (sep (jobListAt list keys) P)))
      (loadRows jobTable list rows) fun list' f =>
        ∃ qs, qs.length = (ss ++ rows.flatMap keptStrings).length ∧
          ∃ loaded', Matches qs (ss ++ rows.flatMap keptStrings) loaded'
              (rows.foldl NedoCron.tupleToJob jobs) ∧
            sep (stringsAt .cronJobContext qs (ss ++ rows.flatMap keptStrings))
              (sep (jobTableAt jobTable loaded')
                (sep (jobListAt list' (keys ++ jobIds rows)) P)) f := by
  induction rows generalizing ps ss loaded jobs list keys with
  | nil =>
    rw [List.flatMap_nil, List.append_nil, jobIds, List.filterMap_nil, List.append_nil]
    exact triple_pure fun f hf => ⟨ps, hlength, loaded, hmatches, hf⟩
  | cons row rows ih =>
    rw [List.flatMap_cons, ← List.append_assoc]
    refine triple_bind (triple_tupleToJob hlength hmatches jobTable row) fun r => ?_
    refine triple_of_fact fun hr => triple_exists fun qs => triple_of_fact fun hlength' =>
      triple_exists fun loaded' => triple_of_fact fun hmatches' => ?_
    cases hrow : row.toJob with
    | none =>
      have hkeys : jobIds (row :: rows) = jobIds rows := by
        unfold jobIds
        rw [List.filterMap_cons, hrow]
        rfl
      rw [hr, hrow, hkeys]
      exact ih hlength' hmatches' list keys
    | some job =>
      have hkeys : keys ++ jobIds (row :: rows) = keys ++ [job.jobId] ++ jobIds rows := by
        unfold jobIds
        rw [List.filterMap_cons, hrow, List.append_assoc]
        rfl
      rw [hr, hrow, hkeys]
      -- a cell for the job
      rw [sep_left_comm (jobTableAt _ _), sep_left_comm (stringsAt _ _ _)]
      refine triple_bind (triple_lappend list keys job.jobId) fun list' => ?_
      rw [sep_left_comm (jobListAt _ _), sep_left_comm (jobListAt _ _)]
      exact ih hlength' hmatches' (some list') (keys ++ [job.jobId])

end Rows

/-! ### The whole context -/

/-- The block is in the context of the loaded jobs. -/
def inJobContext (b : Block) : Bool := b.context == .cronJobContext

/-- The strings of the jobs are in their context. -/
theorem within_stringsAt (ps : List Nat) (ss : List CString) :
    Within inJobContext (stringsAt .cronJobContext ps ss) := by
  induction ps generalizing ss with
  | nil =>
    cases ss with
    | nil => exact within_emp
    | cons s ss => exact fun _ hfalse => absurd hfalse id
  | cons p ps ih =>
    cases ss with
    | nil => exact fun _ hfalse => absurd hfalse id
    | cons s ss => exact (within_pointsTo rfl).sep (ih ss)

/-- One block for each string. -/
theorem counted_stringsAt (ps : List Nat) (ss : List CString) :
    Counted inJobContext (stringsAt .cronJobContext ps ss) ss.length := by
  induction ps generalizing ss with
  | nil =>
    cases ss with
    | nil => exact counted_emp
    | cons s ss => exact fun _ hfalse => absurd hfalse id
  | cons p ps ih =>
    cases ss with
    | nil => exact fun _ hfalse => absurd hfalse id
    | cons s ss =>
      rw [List.length_cons, Nat.add_comm]
      exact (counted_pointsTo rfl).sep (ih ss)

/-- The list of the jobs is in their context. -/
theorem within_jobListAt (list : Option Nat) (keys : List Int) :
    Within inJobContext (jobListAt list keys) := by
  cases list <;> cases keys
  · exact within_emp
  · exact fun _ hfalse => absurd hfalse id
  · exact fun _ hfalse => absurd hfalse id
  · exact within_pointsTo rfl

theorem counted_jobTableAt (jobTable : Nat) (loaded : Table Int LoadedJob) :
    Counted inJobContext (jobTableAt jobTable loaded) 1 := counted_pointsTo rfl

/-- No block for the empty list. -/
theorem counted_jobListAt (list : Option Nat) (keys : List Int) :
    Counted inJobContext (jobListAt list keys) (if keys = [] then 0 else 1) := by
  cases list <;> cases keys
  · exact counted_emp
  · exact fun _ hfalse => absurd hfalse id
  · exact fun _ hfalse => absurd hfalse id
  · exact counted_pointsTo rfl

/-- What is left outside the context, but for the table of the tasks. -/
theorem within_rest (f : Blocks Block) (taskTable : Nat) :
    Within (fun b => !inJobContext b)
      (fun g => g = Function.update (outside inJobContext f) taskTable none) := by
  rintro g rfl p b hp
  by_cases h : p = taskTable
  · rw [h, Function.update_self] at hp
    cases hp
  · rw [Function.update_of_ne h] at hp
    show (!inJobContext b) = true
    rw [(outside_eq_some.mp hp).2]
    rfl

/-- The job's strings are on the heap, in the context of the loaded jobs. -/
structure LoadedJob.Reads (f : Blocks Block) (loaded : LoadedJob) (job : CronJob) : Prop where
  jobId : loaded.jobId = job.jobId
  schedule : loaded.schedule = job.schedule
  nodePort : loaded.nodePort = job.nodePort
  scheduleText : f loaded.scheduleText = some ⟨.cronJobContext, .string job.scheduleText⟩
  command : f loaded.command = some ⟨.cronJobContext, .string job.command⟩
  nodeName : f loaded.nodeName = some ⟨.cronJobContext, .string job.nodeName⟩
  database : f loaded.database = some ⟨.cronJobContext, .string job.database⟩
  userName : f loaded.userName = some ⟨.cronJobContext, .string job.userName⟩

/-- A job that has its strings reads as the job of the model. -/
theorem LoadedJob.Among.reads {ps : List Nat} {ss : List CString} {P : Assertion Block}
    {f : Blocks Block} (hf : sep (stringsAt .cronJobContext ps ss) P f) {loaded : LoadedJob}
    {job : CronJob} (h : loaded.Among ps ss job) : loaded.Reads f job := by
  have hread : ∀ {p s}, (p, s) ∈ ps.zip ss → f p = some ⟨.cronJobContext, .string s⟩ := by
    intro p s hmem
    obtain ⟨i, hi⟩ := List.mem_iff_getElem?.mp hmem
    obtain ⟨hp, hs⟩ := List.getElem?_zip_eq_some.mp hi
    exact (holds_stringsAt hp hs).left P f hf
  exact ⟨h.jobId, h.schedule, h.nodePort, hread h.scheduleText, hread h.command,
    hread h.nodeName, hread h.database, hread h.userName⟩

/-- Six strings for a row that parses, one for any other. -/
theorem length_keptStrings (row : JobRow) :
    (keptStrings row).length = if row.toJob.isSome then 6 else 1 := by
  unfold keptStrings
  cases row.toJob <;> rfl

/-- The rows that a reload reads. -/
def readRows (source : ReloadSource) : List JobRow :=
  if source.recoveryInProgress || !source.cronLoaded then [] else source.table.rows

/-- The ids of the rows that become jobs are those of the loaded jobs. -/
theorem mem_jobIds (source : ReloadSource) (k : Int) :
    k ∈ jobIds (readRows source) ↔ k ∈ (NedoCron.loadJobsList source.recoveryInProgress
      source.cronLoaded source.table).keys := by
  unfold readRows
  by_cases hskip : (source.recoveryInProgress || !source.cronLoaded) = true
  · unfold NedoCron.loadJobsList
    rw [if_pos hskip, if_pos hskip]
    exact Iff.rfl
  · have hread : NedoCron.loadJobsList source.recoveryInProgress source.cronLoaded source.table =
        NedoCron.loadJobsList false true source.table := if_neg hskip
    rw [if_neg hskip, hread, ← AList.mem_keys, ← AList.lookup_isSome, Option.isSome_iff_exists,
      jobIds, List.mem_filterMap]
    constructor
    · rintro ⟨row, hrow, hid⟩
      obtain ⟨job, hjob, rfl⟩ := Option.map_eq_some_iff.mp hid
      exact ⟨job, (lookup_loadJobsList _ _ job).mpr ⟨row, hrow, (JobRow.toJob_jobId hjob).symm,
        hjob⟩⟩
    · rintro ⟨job, hjob⟩
      obtain ⟨row, hrow, rfl, htoJob⟩ := (lookup_loadJobsList _ _ job).mp hjob
      exact ⟨row, hrow, by rw [htoJob, Option.map_some, JobRow.toJob_jobId htoJob]⟩

/-- The order in which the tasks are activated does not matter. -/
theorem lookup_activated (tasks : Table Int CronTask) (source : ReloadSource) (k : Int) :
    ((jobIds (readRows source)).foldl (activateTask source.entry)
      (Table.mapEntries (fun _ task => { task with isActive := false }) tasks)).lookup k =
        (NedoCron.reloadCronJobs tasks source).2.lookup k := by
  show _ = (List.foldl (activateTask source.entry) _ (NedoCron.loadJobsList _ _ _).keys).lookup k
  rw [lookup_activateTasks, lookup_activateTasks]
  simp only [mem_jobIds]

/-- **`ReloadCronJobs`** on the heap. -/
theorem triple_reloadCronJobs {f₀ : Blocks Block} {taskTable : Nat} {tasks : Table Int CronTask}
    (htasks : f₀ taskTable = some ⟨.cronTaskContext, .taskTable tasks⟩) (source : ReloadSource) :
    Triple (fun f => f = f₀) (reloadCronJobs taskTable source) fun jobTable f =>
      ∃ list ps ss loaded, ps.length = ss.length ∧ ss = (readRows source).flatMap keptStrings ∧
        Matches ps ss loaded (NedoCron.reloadCronJobs tasks source).1 ∧
        sep (sep (stringsAt .cronJobContext ps ss)
            (sep (jobTableAt jobTable loaded) (jobListAt list (jobIds (readRows source)))))
          (sep (taskTableAt taskTable ((jobIds (readRows source)).foldl (activateTask source.entry)
              (Table.mapEntries (fun _ task => { task with isActive := false }) tasks)))
            fun g => g = Function.update (outside inJobContext f₀) taskTable none) f := by
  have houtside : outside inJobContext f₀ taskTable =
      some ⟨.cronTaskContext, .taskTable tasks⟩ := outside_eq_some.mpr ⟨htasks, rfl⟩
  refine triple_bind (triple_pre (triple_release (P := fun g => g = outside inJobContext f₀) _)
    fun f hf => by rw [hf]; rfl) fun _ => ?_
  rw [exactly_split houtside]
  generalize (fun g => g = Function.update (outside inJobContext f₀) taskTable none) = rest
  refine triple_bind (triple_alloc _) fun jobTable => ?_
  rw [sep_left_comm]
  refine triple_bind (triple_updateTasks taskTable tasks _) fun _ => ?_
  rw [sep_left_comm]
  -- the strings, the table and the list, which is empty at first
  have hloaded : Triple (sep (stringsAt .cronJobContext [] []) (sep (jobTableAt jobTable ∅)
      (sep (jobListAt none []) (sep (taskTableAt taskTable
        (Table.mapEntries (fun _ task => { task with isActive := false }) tasks)) rest))))
      (loadJobsList jobTable source.recoveryInProgress source.cronLoaded source.table)
      fun list f => ∃ ps, ps.length = ((readRows source).flatMap keptStrings).length ∧
        ∃ loaded, Matches ps ((readRows source).flatMap keptStrings) loaded
            (NedoCron.reloadCronJobs tasks source).1 ∧
          sep (stringsAt .cronJobContext ps ((readRows source).flatMap keptStrings))
            (sep (jobTableAt jobTable loaded) (sep (jobListAt list (jobIds (readRows source)))
              (sep (taskTableAt taskTable
                (Table.mapEntries (fun _ task => { task with isActive := false }) tasks))
                rest))) f := by
    have hempty : Matches [] [] ∅ ∅ := fun k => .none
    unfold loadJobsList NedoCron.reloadCronJobs NedoCron.loadJobsList readRows
    dsimp only
    by_cases hskip : (source.recoveryInProgress || !source.cronLoaded) = true
    · rw [if_pos hskip, if_pos hskip, if_pos hskip]
      exact triple_pure fun f hf => ⟨[], rfl, ∅, hempty, hf⟩
    · rw [if_neg hskip, if_neg hskip, if_neg hskip]
      exact triple_loadRows rfl hempty jobTable none [] source.table.rows
  refine triple_bind (triple_pre hloaded fun f hf => ?_) fun list => ?_
  · show sep emp _ f
    rw [emp_sep]
    show sep _ (sep emp _) f
    rwa [emp_sep]
  · refine triple_exists fun ps => triple_of_fact fun hlength =>
      triple_exists fun loaded => triple_of_fact fun hmatches => ?_
    rw [sep_left_comm (jobTableAt _ _), sep_left_comm (stringsAt _ _ _)]
    refine tidy_loadList.then_triple ?_
    rw [sep_left_comm (jobTableAt _ _), sep_left_comm (stringsAt _ _ _),
      sep_left_comm (jobListAt _ _)]
    refine triple_bind (triple_activateTasks taskTable source.entry _ _) fun _ =>
      triple_pure fun f hf => ?_
    refine ⟨list, ps, _, loaded, hlength, rfl, hmatches, ?_⟩
    rw [sep_left_comm (taskTableAt _ _), sep_left_comm (taskTableAt _ _),
      sep_left_comm (taskTableAt _ _), sep_left_comm (jobListAt _ _),
      sep_left_comm (jobListAt _ _)] at hf
    rw [sep_assoc, sep_assoc]
    exact hf

/-- **A reload neither leaks nor dangles.**  From every heap that holds the table of the tasks,
    whatever earlier reloads have left in the context of the loaded jobs: the reload is defined.
    The new table of the jobs is that of the model without a heap, and every string of a loaded job
    is in use; so are the tasks, and outside the context of the jobs their table is all that
    changes.  The context of the jobs holds what this reload has put there, and nothing else: the
    table, the list unless it is empty, and six strings for a row whose schedule parses and one for
    any other. -/
theorem reloadCronJobs_memory (h : State Block) {taskTable : Nat} {tasks : Table Int CronTask}
    (htasks : h.blocks taskTable = some ⟨.cronTaskContext, .taskTable tasks⟩)
    (source : ReloadSource) :
    ∃ jobTable loaded tasks' h', reloadCronJobs taskTable source h = some (jobTable, h') ∧
      h'.blocks jobTable = some ⟨.cronJobContext, .jobTable loaded⟩ ∧
      (∀ k, Option.Rel (LoadedJob.Reads h'.blocks) (loaded.lookup k)
        ((NedoCron.reloadCronJobs tasks source).1.lookup k)) ∧
      (∀ k, tasks'.lookup k = (NedoCron.reloadCronJobs tasks source).2.lookup k) ∧
      outside inJobContext h'.blocks = Function.update (outside inJobContext h.blocks) taskTable
        (some ⟨.cronTaskContext, .taskTable tasks'⟩) ∧
      (addresses inJobContext h'.blocks).ncard =
        1 + (if jobIds (readRows source) = [] then 0 else 1) +
          ((readRows source).map fun row => if row.toJob.isSome then 6 else 1).sum := by
  obtain ⟨jobTable, h', hrun, list, ps, _, loaded, -, rfl, hmatches, hf⟩ :=
    triple_reloadCronJobs htasks source h rfl
  have hsame := lookup_activated tasks source
  generalize (jobIds (readRows source)).foldl (activateTask source.entry) _ = tasks' at hf hsame
  -- the blocks in the context, and those outside
  have hwithin : Within inJobContext (sep
      (stringsAt .cronJobContext ps ((readRows source).flatMap keptStrings))
      (sep (jobTableAt jobTable loaded) (jobListAt list (jobIds (readRows source))))) :=
    (within_stringsAt _ _).sep ((within_pointsTo rfl).sep (within_jobListAt _ _))
  have hcounted := (counted_stringsAt ps ((readRows source).flatMap keptStrings)).sep
    ((counted_jobTableAt jobTable loaded).sep
      (counted_jobListAt list (jobIds (readRows source))))
  have hrest : Within (fun b => !inJobContext b) (sep (taskTableAt taskTable tasks')
      fun g => g = Function.update (outside inJobContext h.blocks) taskTable none) :=
    (within_pointsTo rfl).sep (within_rest h.blocks taskTable)
  refine ⟨jobTable, loaded, tasks', h', hrun, ?_, fun k => ?_, hsame, ?_, ?_⟩
  · exact (((holds_pointsTo jobTable _).left _).right _).left _ _ hf
  · rw [sep_assoc] at hf
    have hk := hmatches k
    generalize loaded.lookup k = a at hk ⊢
    generalize (NedoCron.reloadCronJobs tasks source).1.lookup k = b at hk ⊢
    cases hk with
    | none => exact .none
    | some hamong => exact .some (hamong.reads hf)
  · obtain ⟨f, g, hj, hf, hg⟩ := hf
    rw [outside_joins hj hwithin hf hrest hg]
    obtain ⟨_, _, hj', rfl, rfl⟩ := hg
    rw [hj'.eq_update, Function.update_idem]
  · rw [((hcounted.sep (counted_zero hrest)) _ hf).2, List.length_flatMap]
    simp only [length_keptStrings]
    omega

/-- A heap with a table of tasks that is still empty. -/
def tasksHeap : State Block where
  blocks p := if p = 0 then some ⟨.cronTaskContext, .taskTable ∅⟩ else none
  next := 1
  fresh _ hp := if_neg (Nat.ne_of_gt hp)

/-- The theorem at the first reload, which reads one row. -/
theorem reloadCronJobs_memory_first : ∃ jobTable h',
    reloadCronJobs 0 (oneRow (secondsRow (ascii "alice") (ascii "SELECT 1"))) tasksHeap =
        some (jobTable, h') ∧
      (addresses inJobContext h'.blocks).ncard = 8 := by
  have hrow : (secondsRow (ascii "alice") (ascii "SELECT 1")).toJob.isSome = true := by
    decide +kernel
  have htasks : tasksHeap.blocks 0 = some ⟨.cronTaskContext, .taskTable ∅⟩ := rfl
  obtain ⟨jobTable, -, -, h', hrun, -, -, -, -, hcount⟩ := reloadCronJobs_memory tasksHeap htasks
    (oneRow (secondsRow (ascii "alice") (ascii "SELECT 1")))
  refine ⟨jobTable, h', hrun, ?_⟩
  obtain ⟨job, hjob⟩ := Option.isSome_iff_exists.mp hrow
  have hids : jobIds [secondsRow (ascii "alice") (ascii "SELECT 1")] ≠ [] := by
    unfold jobIds
    rw [List.filterMap_cons, hjob]
    exact List.cons_ne_nil _ _
  have hread : readRows (oneRow (secondsRow (ascii "alice") (ascii "SELECT 1"))) =
      [secondsRow (ascii "alice") (ascii "SELECT 1")] := rfl
  rw [hread, if_neg hids] at hcount
  rw [hcount, List.map_singleton, List.sum_singleton, if_pos hrow]

end NedoCron.Memory
