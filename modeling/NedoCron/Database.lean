import NedoCron.Canonical
import NedoCron.ErrorText

namespace NedoCron

/-!
# nedo_cron — the metadata tables and their SQL functions (`cron_job.c`, the extension script)

The tables of the extension with the constraints the script puts on them, as a `Database` whose
fields say that they hold, and the statements other sessions run on them: the SQL functions
`check_schedule`, `schedule` and `unschedule`, and plain `INSERT`, `UPDATE` and `DELETE`.  A
statement that violates a constraint fails and changes nothing, except that an id drawn from
the sequence is not given back.

* `scheduleJob`, `unscheduleJob` — the SQL functions;
* `Database.step` — what a statement of a session leaves behind.
-/

/-! ### The tables -/

/-- `check_schedule`. -/
def checkSchedule (schedule : CString) : Bool := (parse schedule).isSome

/-- The ids in the table. -/
def JobsTable.ids (table : JobsTable) : List Int := table.rows.map JobRow.jobid

/-- `nedo_cron.jobs`, the last id its sequence has given out, and `nedo_cron.job_run_details`. -/
structure Database where
  jobs : JobsTable
  lastJobId : Int
  history : History
  /-- `CHECK (nedo_cron.check_schedule(schedule))` -/
  checked : ∀ row ∈ jobs.rows, checkSchedule row.schedule = true
  /-- `REFERENCES nedo_cron.jobs (jobid)` -/
  referenced : ∀ r run, history.runs.lookup r = some run → run.jobid ∈ jobs.ids

/-- Why a statement fails. -/
inductive SqlError where
  /-- `ereport(ERROR, …)` of the extension, with its message -/
  | raised (message : CString)
  | uniqueViolation
  | checkViolation
  | foreignKeyViolation
  /-- the sequence has given out its last id -/
  | sequenceLimit
  deriving DecidableEq

/-! ### Statements on `nedo_cron.jobs` -/

/-- `nextval('nedo_cron.jobid_seq')`; a sequence does not take part in transactions. -/
def Database.nextJobId (db : Database) : Option (Int × Database) :=
  if db.lastJobId < longMax then
    some (db.lastJobId + 1, { db with lastJobId := db.lastJobId + 1 })
  else none

/-- The table with other rows, if they meet the constraints. -/
def Database.withRows (db : Database) (rows : List JobRow) : Except SqlError Database :=
  if hcheck : (rows.all fun row => checkSchedule row.schedule) = true then
    if hkey : (rows.map JobRow.jobid).Nodup then
      if href : (db.history.runs.entries.all fun run =>
          (rows.map JobRow.jobid).contains run.2.jobid) = true then
        .ok
          { db with
            jobs := ⟨rows, hkey⟩
            checked := List.all_eq_true.mp hcheck
            referenced := fun r run hrun => by
              have hmem := List.all_eq_true.mp href ⟨r, run⟩ (AList.mem_lookup_iff.mp hrun)
              exact List.contains_iff_mem.mp hmem }
      else .error .foreignKeyViolation
    else .error .uniqueViolation
  else .error .checkViolation

/-- `INSERT` of one row. -/
def Database.insertJob (db : Database) (row : JobRow) : Except SqlError Database :=
  db.withRows (db.jobs.rows ++ [row])

/-- `UPDATE` of the row with an id, if there is one. -/
def Database.updateJob (db : Database) (jobid : Int) (set : JobRow → JobRow) :
    Except SqlError Database :=
  db.withRows (db.jobs.rows.map fun row => if row.jobid = jobid then set row else row)

/-- The runs of deleted jobs go with them. -/
def History.cascade (h : History) (gone : Int → Bool) : History :=
  h.deleteRuns fun r => (h.runs.lookup r).any fun run => gone run.jobid

/-- The rows the cascade leaves: those of other jobs. -/
theorem History.lookup_cascade (h : History) (gone : Int → Bool) (r : Int) :
    (h.cascade gone).runs.lookup r = (h.runs.lookup r).filter fun run => !gone run.jobid := by
  show (Table.keep _ h.runs).lookup r = _
  rw [Table.lookup_keep]
  cases hrun : h.runs.lookup r with
  | none => rfl
  | some run =>
    show Option.filter (fun _ => !((h.runs.lookup r).any fun run => gone run.jobid)) (some run) = _
    rw [hrun]
    rfl

/-- `DELETE` of all rows with certain ids; `ON DELETE CASCADE` for their runs. -/
def Database.deleteJobs (db : Database) (gone : Int → Bool) : Database where
  jobs :=
    { rows := db.jobs.rows.filter fun row => !gone row.jobid
      primaryKey := db.jobs.primaryKey.sublist (List.filter_sublist.map _) }
  lastJobId := db.lastJobId
  history := db.history.cascade gone
  checked row hrow := db.checked row (List.mem_filter.mp hrow).1
  referenced r run hrun := by
    rw [History.lookup_cascade, Option.filter_eq_some_iff] at hrun
    obtain ⟨hrun, hkept⟩ := hrun
    obtain ⟨row, hrow, hid⟩ := List.mem_map.mp (db.referenced r run hrun)
    exact List.mem_map.mpr ⟨row, List.mem_filter.mpr ⟨hrow, by rw [hid]; exact hkept⟩, hid⟩

/-! ### The SQL functions -/

/-- What a session brings along: `GetUserNameFromId(GetUserId())`, `get_database_name` and
    `PostPortNumber`. -/
structure Session where
  userName : CString
  databaseName : CString
  postPortNumber : Int

/-- `errmsg`. -/
def errmsg (fmt : CString) (args : List FmtArg) : CString := (formatArgs fmt args).getD []

/-- The message of `schedule` about a text that is rejected. -/
def scheduleMessage (error : CronParseError) : CString :=
  if error.fieldIndex > 0 ∧ error.token ≠ [] then
    errmsg (ascii "invalid schedule at field %d near \"%s\": %s")
      [.int error.fieldIndex, .str error.token, .str error.message]
  else errmsg (ascii "invalid schedule: %s") [.str error.message]

/-- The row `schedule` inserts. -/
def Session.row (session : Session) (jobid : Int) (schedule command : CString) : JobRow where
  jobid := jobid
  schedule := schedule
  command := command
  nodename := ascii "localhost"
  nodeport := session.postPortNumber
  database := session.databaseName
  username := session.userName

/-- `schedule_job`: the id of the new job, or the error, and the database afterwards.  An
    `INSERT … RETURNING` without triggers on rows returns one row with its key, so the two
    branches for anything else are not modelled. -/
def scheduleJob (db : Database) (session : Session) (schedule command : CString) :
    Except SqlError Int × Database :=
  match parseWithError schedule (some ⟨[], [], 0, 0⟩) with
  | (none, error) => (.error (.raised (scheduleMessage (error.getD ⟨[], [], 0, 0⟩))), db)
  | (some _, _) =>
    match db.nextJobId with
    | none => (.error .sequenceLimit, db)
    | some (jobid, db) =>
      match db.insertJob (session.row jobid schedule command) with
      | .ok db => (.ok jobid, db)
      | .error error => (.error error, db)

/-- `unschedule_job`; its format prints an id as an unsigned number of 64 bits. -/
def unscheduleJob (db : Database) (jobId : Int) : Except SqlError Bool × Database :=
  if jobId ∈ db.jobs.ids then (.ok true, db.deleteJobs fun id => id == jobId)
  else
    (.error (.raised (errmsg (ascii "Cannot find current job %ld")
      [.int (jobId % 18446744073709551616)])), db)

/-! ### Statements of the worker -/

/-- The history after statements of the worker, if every run in it has its job. -/
def Database.withHistory (db : Database) (history : History) : Except SqlError Database :=
  if href : (history.runs.entries.all fun run => db.jobs.ids.contains run.2.jobid) = true then
    .ok
      { db with
        history := history
        referenced := fun r run hrun => by
          have hmem := List.all_eq_true.mp href ⟨r, run⟩ (AList.mem_lookup_iff.mp hrun)
          exact List.contains_iff_mem.mp hmem }
  else .error .foreignKeyViolation

/-- A run id is drawn for a row that is not inserted. -/
def Database.drawRunId (db : Database) (runId : Int) : Database :=
  { db with
    history :=
      { db.history with
        lastRunId := max db.history.lastRunId runId
        nonneg := le_trans db.history.nonneg (le_max_left _ _)
        bounded := fun r hr => le_trans (db.history.bounded r hr) (le_max_left _ _) } }

/-! ### Sessions -/

/-- The tables right after `CREATE EXTENSION`. -/
def emptyDatabase : Database where
  jobs := ⟨[], List.nodup_nil⟩
  lastJobId := 0
  history := emptyHistory
  checked := by simp
  referenced r run hrun := by
    have hnone : emptyHistory.runs.lookup r = none := rfl
    rw [hnone] at hrun
    cases hrun

/-- The statements of other sessions. -/
inductive SessionOp where
  /-- `SELECT nedo_cron.schedule(…)` -/
  | schedule (session : Session) (schedule command : CString)
  /-- `SELECT nedo_cron.unschedule(…)` -/
  | unschedule (jobId : Int)
  /-- `INSERT` of a row with an id of its own -/
  | insert (row : JobRow)
  /-- `INSERT` of a row that gets its id from the sequence -/
  | insertNext (row : JobRow)
  /-- `UPDATE` of the row with an id -/
  | update (jobid : Int) (set : JobRow → JobRow)
  /-- `DELETE` of all rows with certain ids, or `TRUNCATE … CASCADE` -/
  | delete (gone : Int → Bool)
  /-- `DELETE` of rows of `job_run_details` -/
  | deleteRuns (gone : Int → Bool)
  /-- `TRUNCATE` of both tables with `RESTART IDENTITY CASCADE`, as in `protect.sql`: the sequences
      are owned by columns of the tables, so both start again -/
  | truncate
  /-- `TRUNCATE` of `job_run_details` with `RESTART IDENTITY` -/
  | truncateRuns

/-- A statement that fails leaves the database as it is. -/
def Database.attempt (db : Database) : Except SqlError Database → Database
  | .ok db' => db'
  | .error _ => db

/-- `DELETE` of rows of `job_run_details`. -/
def Database.deleteRuns (db : Database) (gone : Int → Bool) : Database :=
  { db with
    history := db.history.deleteRuns gone
    referenced := fun r run hrun => by
      have hlookup : (Table.keep (fun r _ => !gone r) db.history.runs).lookup r = some run := hrun
      rw [Table.lookup_keep, Option.filter_eq_some_iff] at hlookup
      exact db.referenced r run hlookup.1 }

/-- `TRUNCATE nedo_cron.job_run_details RESTART IDENTITY`. -/
def Database.truncateRuns (db : Database) : Database :=
  { db with
    history := emptyHistory
    referenced := fun r run hrun => by
      have hnone : emptyHistory.runs.lookup r = none := rfl
      rw [hnone] at hrun
      cases hrun }

/-- What a statement leaves behind. -/
def Database.step (db : Database) : SessionOp → Database
  | .schedule session schedule command => (scheduleJob db session schedule command).2
  | .unschedule jobId => (unscheduleJob db jobId).2
  | .insert row => db.attempt (db.insertJob row)
  | .insertNext row =>
    match db.nextJobId with
    | none => db
    | some (jobid, db) => db.attempt (db.insertJob { row with jobid := jobid })
  | .update jobid set => db.attempt (db.updateJob jobid set)
  | .delete gone => db.deleteJobs gone
  | .deleteRuns gone => db.deleteRuns gone
  | .truncate => emptyDatabase
  | .truncateRuns => db.truncateRuns

/-- The row with an id. -/
def Database.row (db : Database) (jobid : Int) : Option JobRow :=
  db.jobs.rows.find? fun row => row.jobid == jobid

/-! ### What the statements do -/

/-- The row of an id is the one row in the table with it. -/
theorem Database.row_eq_some {db : Database} {k : Int} {row : JobRow} :
    db.row k = some row ↔ row ∈ db.jobs.rows ∧ row.jobid = k := by
  constructor
  · intro h
    exact ⟨List.mem_of_find?_eq_some h, by simpa using List.find?_some h⟩
  · rintro ⟨hmem, hid⟩
    cases hrow : db.row k with
    | none =>
      have hnone := List.find?_eq_none.mp hrow row hmem
      exact absurd (by simpa using hid) hnone
    | some other =>
      have hother : other.jobid = k := by simpa using List.find?_some hrow
      rw [List.inj_on_of_nodup_map db.jobs.primaryKey (List.mem_of_find?_eq_some hrow) hmem
        (by rw [hother, hid])]

/-- An id without a row is the id of no job. -/
theorem Database.row_eq_none {db : Database} {k : Int} : db.row k = none ↔ k ∉ db.jobs.ids := by
  show List.find? _ db.jobs.rows = none ↔ k ∉ db.jobs.rows.map JobRow.jobid
  rw [List.find?_eq_none, List.mem_map]
  simp

/-- What a statement that changes rows of `jobs` leaves alone. -/
theorem withRows_ok {db db' : Database} {rows : List JobRow} (h : db.withRows rows = .ok db') :
    db'.jobs.rows = rows ∧ db'.lastJobId = db.lastJobId ∧ db'.history = db.history := by
  unfold Database.withRows at h
  split at h
  · split at h
    · split at h
      · cases h
        exact ⟨rfl, rfl, rfl⟩
      · cases h
    · cases h
  · cases h

/-- What a statement that changes the history leaves alone. -/
theorem withHistory_ok {db db' : Database} {history : History}
    (h : db.withHistory history = .ok db') :
    db'.history = history ∧ db'.jobs = db.jobs ∧ db'.lastJobId = db.lastJobId := by
  unfold Database.withHistory at h
  split at h
  · cases h
    exact ⟨rfl, rfl, rfl⟩
  · cases h

/-- The worker's statements fail exactly on a run without a job. -/
theorem withHistory_error_iff {db : Database} {history : History} :
    (∃ error, db.withHistory history = .error error) ↔
      ∃ r run, history.runs.lookup r = some run ∧ run.jobid ∉ db.jobs.ids := by
  have hall : (history.runs.entries.all fun run => db.jobs.ids.contains run.2.jobid) = true ↔
      ∀ r run, history.runs.lookup r = some run → run.jobid ∈ db.jobs.ids := by
    rw [List.all_eq_true]
    constructor
    · intro h r run hrun
      exact List.contains_iff_mem.mp (h ⟨r, run⟩ (AList.mem_lookup_iff.mp hrun))
    · intro h run hrun
      exact List.contains_iff_mem.mpr (h run.1 run.2 (AList.mem_lookup_iff.mpr hrun))
  unfold Database.withHistory
  split
  · rename_i href
    refine iff_of_false (by simp) ?_
    rintro ⟨r, run, hrun, hmissing⟩
    exact hmissing (hall.mp href r run hrun)
  · rename_i href
    refine iff_of_true ⟨_, rfl⟩ ?_
    rw [hall] at href
    push Not at href
    exact href

/-- **`INSERT`** checks the schedule first and the key then. -/
theorem insertJob_cases (db : Database) (row : JobRow) :
    (checkSchedule row.schedule = false ∧ db.insertJob row = .error .checkViolation) ∨
    (checkSchedule row.schedule = true ∧ row.jobid ∈ db.jobs.ids ∧
      db.insertJob row = .error .uniqueViolation) ∨
    (checkSchedule row.schedule = true ∧ row.jobid ∉ db.jobs.ids ∧
      ∃ db', db.insertJob row = .ok db' ∧ db'.jobs.rows = db.jobs.rows ++ [row] ∧
        db'.lastJobId = db.lastJobId ∧ db'.history = db.history) := by
  -- the three constraints, for the rows with one more
  have hold : (db.jobs.rows.all fun row => checkSchedule row.schedule) = true :=
    List.all_eq_true.mpr db.checked
  have hall : ((db.jobs.rows ++ [row]).all fun row => checkSchedule row.schedule) =
      checkSchedule row.schedule := by
    rw [List.all_append, hold, Bool.true_and, List.all_cons, List.all_nil, Bool.and_true]
  have hkey : ((db.jobs.rows ++ [row]).map JobRow.jobid).Nodup ↔ row.jobid ∉ db.jobs.ids := by
    rw [List.map_append, List.map_singleton, List.nodup_append]
    constructor
    · intro h hmem
      exact h.2.2 _ hmem _ (List.mem_singleton.mpr rfl) rfl
    · intro h
      refine ⟨db.jobs.primaryKey, by simp, fun a ha b hb heq => h ?_⟩
      rw [List.mem_singleton] at hb
      rw [← hb, ← heq]
      exact ha
  have href : (db.history.runs.entries.all fun run =>
      ((db.jobs.rows ++ [row]).map JobRow.jobid).contains run.2.jobid) = true := by
    refine List.all_eq_true.mpr fun run hrun => List.contains_iff_mem.mpr ?_
    rw [List.map_append]
    exact List.mem_append_left _ (db.referenced run.1 run.2 (AList.mem_lookup_iff.mpr hrun))
  unfold Database.insertJob Database.withRows
  -- the check comes first, then the key; the reference cannot fail
  cases hcheck : checkSchedule row.schedule with
  | false =>
    rw [hcheck] at hall
    rw [dif_neg (by rw [hall]; exact Bool.false_ne_true)]
    exact Or.inl ⟨rfl, rfl⟩
  | true =>
    rw [hcheck] at hall
    rw [dif_pos hall]
    by_cases hmem : row.jobid ∈ db.jobs.ids
    · rw [dif_neg fun hnodup => hkey.mp hnodup hmem]
      exact Or.inr (Or.inl ⟨rfl, hmem, rfl⟩)
    · rw [dif_pos (hkey.mpr hmem), dif_pos href]
      exact Or.inr (Or.inr ⟨rfl, hmem, _, rfl, rfl, rfl, rfl⟩)

/-! ### Messages -/

/-- A text without `%` stands for itself. -/
theorem formatArgs_text {text : CString} (h : ∀ c ∈ text, c ≠ 37) (fmt : CString)
    (args : List FmtArg) :
    formatArgs (text ++ fmt) args = (formatArgs fmt args).map (text ++ ·) := by
  induction text with
  | nil =>
    rw [List.nil_append]
    cases formatArgs fmt args <;> rfl
  | cons c text ih =>
    rw [List.cons_append, formatArgs_plain (h c (by simp)), ih fun c hc => h c (by simp [hc])]
    cases formatArgs fmt args <;> rfl

/-- `%s` prints the string. -/
theorem formatArgs_str (s fmt : CString) (args : List FmtArg) :
    formatArgs (37 :: 115 :: fmt) (.str s :: args) = (formatArgs fmt args).map (s ++ ·) := by
  rw [formatArgs.eq_def]
  rfl

/-- `%d` prints the number. -/
theorem formatArgs_decimal (n : Int) (fmt : CString) (args : List FmtArg) :
    formatArgs (37 :: 100 :: fmt) (.int n :: args) =
      (formatArgs fmt args).map (showInt n ++ ·) := by
  rw [formatArgs.eq_def]
  rfl

/-- **The message of `schedule`** names the field and the token if the error has them. -/
theorem scheduleMessage_eq (error : CronParseError) :
    scheduleMessage error =
      if error.fieldIndex > 0 ∧ error.token ≠ [] then
        ascii "invalid schedule at field " ++ (showInt error.fieldIndex ++ (ascii " near \"" ++
          (error.token ++ (ascii "\": " ++ error.message))))
      else ascii "invalid schedule: " ++ error.message := by
  have hplain : ∀ {text : CString}, (text.all fun c => c ≠ 37) = true → ∀ c ∈ text, c ≠ 37 := by
    intro text h
    simpa using h
  have hlocated : ascii "invalid schedule at field %d near \"%s\": %s" =
      ascii "invalid schedule at field " ++ (37 :: 100 :: (ascii " near \"" ++
        (37 :: 115 :: (ascii "\": " ++ 37 :: 115 :: ([] ++ []))))) := by decide +kernel
  have hshort : ascii "invalid schedule: %s" =
      ascii "invalid schedule: " ++ 37 :: 115 :: ([] ++ []) := by decide +kernel
  have hend : formatArgs ([] ++ []) [] = some [] := by decide
  unfold scheduleMessage errmsg
  split
  · rw [hlocated, formatArgs_text (hplain (by decide +kernel)), formatArgs_decimal,
      formatArgs_text (hplain (by decide +kernel)), formatArgs_str,
      formatArgs_text (hplain (by decide +kernel)), formatArgs_str, hend]
    simp only [Option.map_some, Option.getD_some, List.append_nil]
  · rw [hshort, formatArgs_text (hplain (by decide +kernel)), formatArgs_str, hend]
    simp only [Option.map_some, Option.getD_some, List.append_nil]

/-! ### `schedule` and `unschedule` -/

/-- The next id is one more than the last, as long as there are any. -/
theorem nextJobId_eq (db : Database) :
    (longMax ≤ db.lastJobId ∧ db.nextJobId = none) ∨
    (db.lastJobId < longMax ∧ ∃ db', db.nextJobId = some (db.lastJobId + 1, db') ∧
      db'.jobs = db.jobs ∧ db'.lastJobId = db.lastJobId + 1 ∧ db'.history = db.history) := by
  unfold Database.nextJobId
  by_cases h : db.lastJobId < longMax
  · rw [if_pos h]
    exact Or.inr ⟨h, _, rfl, rfl, rfl, rfl⟩
  · rw [if_neg h]
    exact Or.inl ⟨by omega, rfl⟩

/-- What `schedule` does with a text, in the words of the SQL interface. -/
inductive Scheduled (db : Database) (session : Session) (schedule command : CString) :
    Except SqlError Int × Database → Prop where
  /-- the text is rejected: nothing happens, and the message says where the error is -/
  | rejected {fieldIndex tokenIndex : Int} {token message : CString}
      (hrejected : checkSchedule schedule = false) (hmessage : message ≠ [])
      (hplace : ErrorPlace schedule fieldIndex tokenIndex token) :
      Scheduled db session schedule command
        (.error (.raised (scheduleMessage ⟨message, token, fieldIndex, tokenIndex⟩)), db)
  /-- there are no more ids -/
  | exhausted (haccepted : checkSchedule schedule = true) (hlimit : longMax ≤ db.lastJobId) :
      Scheduled db session schedule command (.error .sequenceLimit, db)
  /-- a session has inserted a row with the next id before; the id is used up -/
  | taken {db' : Database} (haccepted : checkSchedule schedule = true)
      (htaken : db.lastJobId + 1 ∈ db.jobs.ids) (hjobs : db'.jobs = db.jobs)
      (hhistory : db'.history = db.history) (hid : db'.lastJobId = db.lastJobId + 1)
      (hleft : db.lastJobId < longMax) :
      Scheduled db session schedule command (.error .uniqueViolation, db')
  /-- the row is inserted under the next id -/
  | inserted {db' : Database} (haccepted : checkSchedule schedule = true)
      (hfresh : db.lastJobId + 1 ∉ db.jobs.ids)
      (hrows : db'.jobs.rows =
        db.jobs.rows ++ [session.row (db.lastJobId + 1) schedule command])
      (hhistory : db'.history = db.history) (hid : db'.lastJobId = db.lastJobId + 1)
      (hleft : db.lastJobId < longMax) :
      Scheduled db session schedule command (.ok (db.lastJobId + 1), db')

/-- Every call of `schedule` ends in one of the four ways. -/
theorem scheduleJob_cases (db : Database) (session : Session) (schedule command : CString) :
    Scheduled db session schedule command (scheduleJob db session schedule command) := by
  have hverdict : checkSchedule schedule = acceptsText schedule :=
    isSome_parseWithError schedule none
  unfold scheduleJob
  rcases settled_parseWithError schedule (some ⟨[], [], 0, 0⟩) with ⟨htext, haccepted, -⟩ |
    ⟨htext, hrejected, message, fieldIndex, tokenIndex, token, hmessage, hplace, hrecord⟩
  · -- accepted: the next id is drawn, and may have been taken by hand
    cases hparse : parseWithError schedule (some ⟨[], [], 0, 0⟩) with
    | mk parsed record =>
      rw [hparse] at haccepted
      obtain ⟨parsed, rfl⟩ := Option.isSome_iff_exists.mp haccepted
      have haccepted : checkSchedule schedule = true := hverdict.trans htext
      dsimp only
      rcases nextJobId_eq db with ⟨hlimit, hnext⟩ | ⟨hleft, db', hnext, hjobs, hid, hhistory⟩
      · rw [hnext]
        exact .exhausted haccepted hlimit
      · rw [hnext]
        dsimp only
        have hids : db'.jobs.ids = db.jobs.ids := by rw [hjobs]
        rcases insertJob_cases db' (session.row (db.lastJobId + 1) schedule command) with
          ⟨hcheck, -⟩ | ⟨-, hmem, hinsert⟩ | ⟨-, hfree, db'', hinsert, hrows, hid', hhistory'⟩
        · exact absurd (haccepted.symm.trans hcheck) (by decide)
        · rw [hinsert]
          exact .taken haccepted (hids ▸ hmem) hjobs hhistory hid hleft
        · rw [hinsert]
          exact .inserted haccepted (hids ▸ hfree) (by rw [hrows, hjobs])
            (hhistory'.trans hhistory) (hid'.trans hid) hleft
  · cases hparse : parseWithError schedule (some ⟨[], [], 0, 0⟩) with
    | mk parsed record =>
      rw [hparse] at hrejected hrecord
      obtain rfl : parsed = none := hrejected
      obtain rfl : record = some ⟨message, token, fieldIndex, tokenIndex⟩ := hrecord
      exact .rejected (hverdict.trans htext) hmessage hplace

/-- **`schedule`** returns the next id of the sequence, exactly if the text is accepted and that id
    is left and free; then the row is added at the end.  On any error the tables stay as they are.
    The error of a rejected text names the field and the token in it that are wrong. -/
theorem scheduleJob_outcome (db : Database) (session : Session) (schedule command : CString) :
    let r := scheduleJob db session schedule command
    (∀ jobid, r.1 = .ok jobid ↔ jobid = db.lastJobId + 1 ∧ checkSchedule schedule = true ∧
      jobid ≤ longMax ∧ jobid ∉ db.jobs.ids) ∧
    (∀ jobid, r.1 = .ok jobid →
      r.2.jobs.rows = db.jobs.rows ++ [session.row jobid schedule command] ∧
        r.2.history = db.history) ∧
    (∀ error, r.1 = .error error → r.2.jobs = db.jobs ∧ r.2.history = db.history) ∧
    (checkSchedule schedule = false →
      ∃ fieldIndex tokenIndex token message, ErrorPlace schedule fieldIndex tokenIndex token ∧
        message ≠ [] ∧ r.1 = .error (.raised
          (if fieldIndex > 0 ∧ token ≠ [] then
            ascii "invalid schedule at field " ++ (showInt fieldIndex ++ (ascii " near \"" ++
              (token ++ (ascii "\": " ++ message))))
          else ascii "invalid schedule: " ++ message))) := by
  intro r
  have hcases := scheduleJob_cases db session schedule command
  change Scheduled db session schedule command r at hcases
  clear_value r
  -- one case for each way a call can end
  cases hcases with
  | @rejected fieldIndex tokenIndex token message hrejected hmessage hplace =>
    refine ⟨fun jobid => iff_of_false (by simp) fun h => ?_, fun jobid h => (by cases h),
      fun error _ => ⟨rfl, rfl⟩, fun _ => ?_⟩
    · rw [hrejected] at h
      exact absurd h.2.1 Bool.false_ne_true
    · exact ⟨fieldIndex, tokenIndex, token, message, hplace, hmessage, by rw [scheduleMessage_eq]⟩
  | exhausted haccepted hlimit =>
    refine ⟨fun jobid => iff_of_false (by simp) fun h => ?_, fun jobid h => (by cases h),
      fun error _ => ⟨rfl, rfl⟩, fun hrejected => ?_⟩
    · obtain ⟨rfl, -, hle, -⟩ := h
      omega
    · rw [haccepted] at hrejected
      cases hrejected
  | taken haccepted htaken hjobs hhistory =>
    refine ⟨fun jobid => iff_of_false (by simp) fun h => ?_, fun jobid h => (by cases h),
      fun error _ => ⟨hjobs, hhistory⟩, fun hrejected => ?_⟩
    · obtain ⟨rfl, -, -, hfree⟩ := h
      exact hfree htaken
    · rw [haccepted] at hrejected
      cases hrejected
  | inserted haccepted hfresh hrows hhistory hid hleft =>
    refine ⟨fun jobid => ⟨fun h => ?_, fun h => by rw [h.1]⟩, fun jobid h => ?_,
      fun error h => by (cases h), fun hrejected => ?_⟩
    · obtain rfl : db.lastJobId + 1 = jobid := Except.ok.inj h
      exact ⟨rfl, haccepted, by omega, hfresh⟩
    · obtain rfl : db.lastJobId + 1 = jobid := Except.ok.inj h
      exact ⟨hrows, hhistory⟩
    · rw [haccepted] at hrejected
      cases hrejected

/-! ### Sessions, one statement after the other -/

/-- The statement gives an id to a row that did not have it, explicitly. -/
def SessionOp.Gives (k : Int) : SessionOp → Prop
  | .insert row => row.jobid = k
  | .update jobid set => jobid ≠ k ∧ ∃ row, row.jobid = jobid ∧ (set row).jobid = k
  | _ => False

/-- The statement changes or deletes the row with an id. -/
def SessionOp.Alters (k : Int) : SessionOp → Prop
  | .unschedule jobId => jobId = k
  | .update jobid _ => jobid = k
  | .delete gone => gone k = true
  | .truncate => True
  | _ => False

/-- The statement lets the ids of jobs start again. -/
def SessionOp.restarts : SessionOp → Bool
  | .truncate => true
  | _ => false

/-- A restart goes with the deletion of all rows. -/
theorem restarts_of_not_alters {op : SessionOp} {k : Int} (h : ¬op.Alters k) :
    op.restarts = false := by
  cases op with
  | truncate => exact absurd trivial h
  | _ => rfl

/-- The row of an id depends on the rows alone. -/
theorem row_of_rows {db db' : Database} (h : db'.jobs.rows = db.jobs.rows) (k : Int) :
    db'.row k = db.row k := by
  unfold Database.row
  rw [h]

/-- A row added at the end is found under its own id only. -/
theorem row_append {db db' : Database} {row : JobRow} (h : db'.jobs.rows = db.jobs.rows ++ [row])
    {k : Int} (hk : row.jobid ≠ k) : db'.row k = db.row k := by
  unfold Database.row
  rw [h, List.find?_append, List.find?_singleton, if_neg (by simpa using hk), Option.or_none]

/-- An insertion, accepted or not, changes the row of no other id. -/
theorem row_insertJob {db : Database} {row : JobRow} {k : Int} (hk : row.jobid ≠ k) :
    (db.attempt (db.insertJob row)).row k = db.row k := by
  rcases insertJob_cases db row with ⟨-, h⟩ | ⟨-, -, h⟩ | ⟨-, -, db', h, hrows, -⟩
  · rw [h]; rfl
  · rw [h]; rfl
  · rw [h]
    exact row_append hrows hk

/-- The rows left by a deletion. -/
theorem row_deleteJobs (db : Database) (gone : Int → Bool) (k : Int) :
    (db.deleteJobs gone).row k = if gone k then none else db.row k := by
  show (db.jobs.rows.filter fun row => !gone row.jobid).find? (fun row => row.jobid == k) = _
  rw [List.find?_filter]
  cases hgone : gone k with
  | true =>
    rw [if_pos rfl, List.find?_eq_none]
    rintro row - h
    simp only [Bool.not_eq_true', beq_iff_eq, decide_eq_true_eq] at h
    rw [h.2, hgone] at h
    exact absurd h.1 (by decide)
  | false =>
    rw [if_neg Bool.false_ne_true]
    unfold Database.row
    congr 1
    funext row
    by_cases hid : row.jobid = k
    · rw [hid, hgone]
      simp
    · simp [hid]

/-- An `UPDATE` of another row leaves the row under `k`, unless it gives that id away. -/
theorem row_updateJob {db : Database} {jobid k : Int} {set : JobRow → JobRow} (hid : jobid ≠ k)
    (hgives : ¬∃ row, row.jobid = jobid ∧ (set row).jobid = k) :
    (db.attempt (db.updateJob jobid set)).row k = db.row k := by
  cases hupdate : db.updateJob jobid set with
  | error error => rfl
  | ok db' =>
    -- what is found under `k` among the updated rows is what was found there before
    have hsame : (fun row : JobRow => (if row.jobid = jobid then set row else row).jobid == k) =
        fun row => row.jobid == k := by
      funext row
      by_cases hrow : row.jobid = jobid
      · rw [if_pos hrow, beq_eq_false_iff_ne.mpr fun heq => hgives ⟨row, hrow, heq⟩, hrow,
          beq_eq_false_iff_ne.mpr hid]
      · rw [if_neg hrow]
    show db'.row k = db.row k
    unfold Database.row
    rw [(withRows_ok hupdate).1, List.find?_map]
    change ((db.jobs.rows.find? fun row : JobRow =>
      (if row.jobid = jobid then set row else row).jobid == k).map _) = _
    rw [hsame]
    cases hfind : db.jobs.rows.find? fun row => row.jobid == k with
    | none => rfl
    | some row =>
      have hk : row.jobid = k := by simpa using List.find?_some hfind
      rw [Option.map_some, if_neg fun heq => hid (by rw [← heq, hk])]

/-- An `UPDATE` of a missing row changes nothing. -/
theorem row_updateJob_of_none {db : Database} {jobid : Int} (h : db.row jobid = none)
    (set : JobRow → JobRow) (k : Int) :
    (db.attempt (db.updateJob jobid set)).row k = db.row k := by
  have hkept : ∀ row ∈ db.jobs.rows, (if row.jobid = jobid then set row else row) = id row := by
    intro row hrow
    have hmem : row.jobid ∈ db.jobs.ids := List.mem_map_of_mem hrow
    exact if_neg fun heq : row.jobid = jobid => Database.row_eq_none.mp h (heq ▸ hmem)
  have hrows : (db.jobs.rows.map fun row => if row.jobid = jobid then set row else row) =
      db.jobs.rows := (List.map_congr_left hkept).trans (List.map_id _)
  cases hupdate : db.updateJob jobid set with
  | error error => rfl
  | ok db' => exact row_of_rows ((withRows_ok hupdate).1.trans hrows) k

/-- **The frame of a statement.**  A row whose id is not given to another row, and is not the next
    of the sequence, stays as it is, unless the statement alters it; a missing row stays away. -/
theorem row_step {db : Database} {op : SessionOp} {k : Int} (hgives : ¬op.Gives k)
    (hk : k ≤ db.lastJobId) (h : ¬op.Alters k ∨ db.row k = none) :
    (db.step op).row k = db.row k := by
  cases op with
  | schedule session schedule command =>
    show (scheduleJob db session schedule command).2.row k = db.row k
    -- a new row has an id beyond `k`
    have houtcome := scheduleJob_cases db session schedule command
    generalize scheduleJob db session schedule command = r at houtcome
    cases houtcome with
    | rejected => rfl
    | exhausted => rfl
    | taken _ _ hjobs => exact row_of_rows (by rw [hjobs]) k
    | inserted _ _ hrows => exact row_append hrows (by show db.lastJobId + 1 ≠ k; omega)
  | unschedule jobId =>
    show (unscheduleJob db jobId).2.row k = db.row k
    unfold unscheduleJob
    split
    · rw [row_deleteJobs]
      refine ite_eq_right_iff.mpr fun hid => ?_
      -- the row under `k` is deleted by name, or there is none
      rcases h with halters | hnone
      · exact absurd (by simpa using hid : k = jobId).symm halters
      · exact hnone.symm
    · rfl
  | insert row => exact row_insertJob hgives
  | insertNext row =>
    show (match db.nextJobId with
      | none => db
      | some (jobid, db) => db.attempt (db.insertJob { row with jobid := jobid })).row k = _
    rcases nextJobId_eq db with ⟨-, hnext⟩ | ⟨-, db', hnext, hjobs, -⟩
    · rw [hnext]
    · rw [hnext]
      dsimp only
      rw [row_insertJob (by show db.lastJobId + 1 ≠ k; omega)]
      exact row_of_rows (by rw [hjobs]) k
  | update jobid set =>
    show (db.attempt (db.updateJob jobid set)).row k = db.row k
    by_cases hid : jobid = k
    · -- the row under `k` is updated by name, or there is none
      rcases h with halters | hnone
      · exact absurd hid halters
      · exact row_updateJob_of_none (by rw [hid]; exact hnone) set k
    · exact row_updateJob hid fun hexists => hgives ⟨hid, hexists⟩
  | delete gone =>
    show (db.deleteJobs gone).row k = db.row k
    rw [row_deleteJobs]
    refine ite_eq_right_iff.mpr fun hgone => ?_
    rcases h with halters | hnone
    · exact absurd hgone halters
    · exact hnone.symm
  | deleteRuns gone => rfl
  | truncate => exact (h.resolve_left fun halters => halters trivial).symm
  | truncateRuns => rfl

/-- Ids are not given back, except by a restart. -/
theorem lastJobId_step (db : Database) {op : SessionOp} (hop : op.restarts = false) :
    db.lastJobId ≤ (db.step op).lastJobId := by
  -- an insertion by itself draws no id
  have hinsert : ∀ (db : Database) (row : JobRow),
      (db.attempt (db.insertJob row)).lastJobId = db.lastJobId := by
    intro db row
    rcases insertJob_cases db row with ⟨-, h⟩ | ⟨-, -, h⟩ | ⟨-, -, db', h, -, hid, -⟩
    · rw [h]; rfl
    · rw [h]; rfl
    · rw [h]
      exact hid
  cases op with
  | schedule session schedule command =>
    show db.lastJobId ≤ (scheduleJob db session schedule command).2.lastJobId
    have houtcome := scheduleJob_cases db session schedule command
    generalize scheduleJob db session schedule command = r at houtcome
    cases houtcome with
    | rejected => exact le_refl _
    | exhausted => exact le_refl _
    | taken _ _ _ _ hid => rw [hid]; omega
    | inserted _ _ _ _ hid => rw [hid]; omega
  | unschedule jobId =>
    show db.lastJobId ≤ (unscheduleJob db jobId).2.lastJobId
    unfold unscheduleJob
    split <;> exact le_refl _
  | insert row =>
    show db.lastJobId ≤ (db.attempt (db.insertJob row)).lastJobId
    rw [hinsert]
  | insertNext row =>
    show db.lastJobId ≤ (match db.nextJobId with
      | none => db
      | some (jobid, db) => db.attempt (db.insertJob { row with jobid := jobid })).lastJobId
    rcases nextJobId_eq db with ⟨-, hnext⟩ | ⟨-, db', hnext, -, hid, -⟩
    · rw [hnext]
    · rw [hnext]
      dsimp only
      rw [hinsert, hid]
      omega
  | update jobid set =>
    show db.lastJobId ≤ (db.attempt (db.updateJob jobid set)).lastJobId
    cases hupdate : db.updateJob jobid set with
    | error error => exact le_refl _
    | ok db' => exact le_of_eq (withRows_ok hupdate).2.1.symm
  | delete gone => exact le_refl _
  | deleteRuns gone => exact le_refl _
  | truncate => cases hop
  | truncateRuns => exact le_refl _

/-- The id a statement returns as that of a new job. -/
def SessionOp.scheduled (db : Database) : SessionOp → Option Int
  | .schedule session text command => (scheduleJob db session text command).1.toOption
  | _ => none

/-- `schedule` returns an id that has not been drawn before. -/
theorem scheduled_lt {db : Database} {op : SessionOp} {k : Int} (h : op.scheduled db = some k) :
    db.lastJobId < k ∧ k ≤ (db.step op).lastJobId := by
  -- only `schedule` returns an id
  cases op with
  | schedule session schedule command =>
    have hreturned : (scheduleJob db session schedule command).1.toOption = some k := h
    show db.lastJobId < k ∧ k ≤ (scheduleJob db session schedule command).2.lastJobId
    have houtcome := scheduleJob_cases db session schedule command
    generalize scheduleJob db session schedule command = r at houtcome hreturned
    cases houtcome with
    | rejected => cases hreturned
    | exhausted => cases hreturned
    | taken => cases hreturned
    | inserted _ _ _ _ hid =>
      cases hreturned
      exact ⟨by omega, le_of_eq hid.symm⟩
  | unschedule jobId => cases h
  | insert row => cases h
  | insertNext row => cases h
  | update jobid set => cases h
  | delete gone => cases h
  | deleteRuns gone => cases h
  | truncate => cases h
  | truncateRuns => cases h

/-- Likewise over a list of statements. -/
theorem lastJobId_run (db : Database) {ops : List SessionOp}
    (hops : ∀ op ∈ ops, op.restarts = false) :
    db.lastJobId ≤ (Machine.run Database.step db ops).lastJobId := by
  induction ops generalizing db with
  | nil => exact le_refl _
  | cons op ops ih =>
    exact le_trans (lastJobId_step db (hops op List.mem_cons_self))
      (ih (db.step op) fun op hop => hops op (List.mem_cons_of_mem _ hop))

/-- **The frame of a list of statements**, none of which gives the id to a row or lets the ids
    start again. -/
theorem row_run {k : Int} (ops : List SessionOp) (db : Database)
    (hgives : ∀ op ∈ ops, ¬op.Gives k) (hids : ∀ op ∈ ops, op.restarts = false)
    (hk : k ≤ db.lastJobId)
    (h : (∀ op ∈ ops, ¬op.Alters k) ∨ db.row k = none) :
    (Machine.run Database.step db ops).row k = db.row k := by
  induction ops generalizing db with
  | nil => rfl
  | cons op ops ih =>
    have hstep := row_step (hgives op List.mem_cons_self) hk
      (h.imp_left fun halters => halters op List.mem_cons_self)
    have hnext := le_trans hk (lastJobId_step db (hids op List.mem_cons_self))
    rw [Machine.run_cons, ih (db.step op) (fun op hop => hgives op (List.mem_cons_of_mem _ hop))
      (fun op hop => hids op (List.mem_cons_of_mem _ hop)) hnext, hstep]
    rw [hstep]
    exact h.imp_left fun halters op hop => halters op (List.mem_cons_of_mem _ hop)

/-- A session of the user alice. -/
def aliceSession : Session := ⟨ascii "alice", ascii "postgres", 5432⟩

/-- The first job of a new database. -/
theorem scheduleJob_first : ∃ db',
    scheduleJob emptyDatabase aliceSession (ascii "5 seconds") (ascii "SELECT 1") = (.ok 1, db') ∧
      1 ∈ db'.jobs.ids ∧ db'.lastJobId = 1 := by
  have haccepted : checkSchedule (ascii "5 seconds") = true := by decide +kernel
  have houtcome := scheduleJob_cases emptyDatabase aliceSession (ascii "5 seconds")
    (ascii "SELECT 1")
  generalize scheduleJob emptyDatabase aliceSession (ascii "5 seconds") (ascii "SELECT 1") = r
    at houtcome
  cases houtcome with
  | rejected hrejected =>
    rw [haccepted] at hrejected
    cases hrejected
  | exhausted _ hlimit => exact absurd hlimit (by decide)
  | taken _ htaken => exact absurd htaken (by decide)
  | @inserted db' _ _ hrows _ hid =>
    refine ⟨db', rfl, ?_, hid⟩
    show (1 : Int) ∈ db'.jobs.rows.map JobRow.jobid
    rw [hrows]
    decide

/-- **What `schedule` stores stays.**  After `schedule` has returned an id, the row of that id has
    the arguments of the call, and a reload finds a job with them; this lasts until a statement
    names the id or empties the table, whatever else other sessions do.  Not even after the row
    has been deleted does a later call return the id again, unless a `TRUNCATE` has let the ids
    start again. -/
theorem schedule_stays (db : Database) (session : Session) (schedule command : CString)
    (jobid : Int) (db' : Database)
    (hcall : scheduleJob db session schedule command = (.ok jobid, db')) (ops : List SessionOp) :
    let after := Machine.run Database.step db' ops
    ((∀ op ∈ ops, ¬op.Gives jobid ∧ ¬op.Alters jobid) →
      after.row jobid = some (session.row jobid schedule command) ∧
      ∃ parsed, parse schedule = some parsed ∧
        getCronJob (loadJobsList false true after.jobs) jobid =
          some ⟨jobid, schedule, parsed, command, ascii "localhost", session.postPortNumber,
            session.databaseName, session.userName⟩) ∧
    ((∀ op ∈ ops, op.restarts = false) → ∀ op : SessionOp, op.scheduled after ≠ some jobid) := by
  intro after
  have houtcome := scheduleJob_cases db session schedule command
  rw [hcall] at houtcome
  -- the call has inserted the row
  obtain ⟨haccepted, hrows, hlast⟩ : checkSchedule schedule = true ∧
      db'.jobs.rows = db.jobs.rows ++ [session.row jobid schedule command] ∧
      db'.lastJobId = jobid := by
    cases houtcome with
    | inserted haccepted _ hrows _ hlast => exact ⟨haccepted, hrows, hlast⟩
  refine ⟨fun hops => ?_, fun hids op hop => ?_⟩
  · have hids : ∀ op ∈ ops, op.restarts = false := fun op hop =>
      restarts_of_not_alters (hops op hop).2
    -- no statement touches the row, so it is still there
    have hrow : after.row jobid = some (session.row jobid schedule command) := by
      have hkept := row_run ops db' (fun op hop => (hops op hop).1) hids (le_of_eq hlast.symm)
        (Or.inl fun op hop => (hops op hop).2)
      rw [hkept, Database.row_eq_some, hrows]
      exact ⟨List.mem_append_right _ (List.mem_singleton.mpr rfl), rfl⟩
    obtain ⟨parsed, hparsed⟩ := Option.isSome_iff_exists.mp haccepted
    refine ⟨hrow, parsed, hparsed, ?_⟩
    obtain ⟨hmem, -⟩ := Database.row_eq_some.mp hrow
    -- the schedule was accepted, so the row becomes a job
    have hjob : (session.row jobid schedule command).toJob =
        some ⟨jobid, schedule, parsed, command, ascii "localhost", session.postPortNumber,
          session.databaseName, session.userName⟩ := by
      show ((parseWithError schedule (some ⟨[], [], 0, 0⟩)).1.map fun schedule' => _) = _
      rw [parseWithError_fst, hparsed]
      rfl
    exact (lookup_loadJobsList after.jobs jobid _).mpr ⟨_, hmem, rfl, hjob⟩
  · -- ids only grow
    have hnew := (scheduled_lt hop).1
    have hgrows := lastJobId_run db' hids
    have hsame : (Machine.run Database.step db' ops).lastJobId = after.lastJobId := rfl
    omega

/-- The theorem at the first job of a new database, while another job is looked for. -/
theorem schedule_stays_first : ∃ db',
    scheduleJob emptyDatabase aliceSession (ascii "5 seconds") (ascii "SELECT 1") = (.ok 1, db') ∧
      (Machine.run Database.step db' [.unschedule 2]).row 1 =
        some (aliceSession.row 1 (ascii "5 seconds") (ascii "SELECT 1")) := by
  obtain ⟨db', hcall, -, -⟩ := scheduleJob_first
  refine ⟨db', hcall, ?_⟩
  have hops : ∀ op ∈ [SessionOp.unschedule 2], ¬op.Gives 1 ∧ ¬op.Alters 1 := by
    intro op hop
    rw [List.mem_singleton] at hop
    subst hop
    exact ⟨id, (by decide : ¬(2 : Int) = 1)⟩
  exact ((schedule_stays emptyDatabase aliceSession _ _ 1 db' hcall
    [SessionOp.unschedule 2]).1 hops).1

/-- **What `unschedule` ends stays ended.**  `unschedule` of a job deletes its row and the rows of
    its runs.  From then on, until a row is given the id by hand or a `TRUNCATE` lets the ids start
    again, no statement brings the job back, the history has no run of it, and `unschedule` of the
    same id fails and changes nothing. -/
theorem unschedule_ends (db : Database) (jobId : Int) (hjob : jobId ∈ db.jobs.ids)
    (hid : jobId ≤ db.lastJobId) (ops : List SessionOp)
    (hops : ∀ op ∈ ops, ¬op.Gives jobId ∧ op.restarts = false) :
    let after := Machine.run Database.step (unscheduleJob db jobId).2 ops
    (unscheduleJob db jobId).1 = .ok true ∧
      after.row jobId = none ∧
      (∀ r run, after.history.runs.lookup r = some run → run.jobid ≠ jobId) ∧
      unscheduleJob after jobId = (.error (.raised (ascii "Cannot find current job " ++
        showInt (jobId % 18446744073709551616))), after) := by
  intro after
  have hcall : unscheduleJob db jobId = (.ok true, db.deleteJobs fun id => id == jobId) :=
    if_pos hjob
  -- the row is gone, and no statement brings it back
  have hgone : after.row jobId = none := by
    have hdeleted : (db.deleteJobs fun id => id == jobId).row jobId = none := by
      rw [row_deleteJobs, if_pos (by simp)]
    show (Machine.run Database.step (unscheduleJob db jobId).2 ops).row jobId = none
    rw [hcall]
    exact (row_run ops (db.deleteJobs fun id => id == jobId) (fun op hop => (hops op hop).1)
      (fun op hop => (hops op hop).2) hid (Or.inr hdeleted)).trans hdeleted
  have hnot : jobId ∉ after.jobs.ids := Database.row_eq_none.mp hgone
  refine ⟨by rw [hcall], hgone, fun r run hrun heq => hnot ?_, ?_⟩
  · rw [← heq]
    exact after.referenced r run hrun
  · -- the text of the error
    have htext : ascii "Cannot find current job %ld" =
        ascii "Cannot find current job " ++ 37 :: 108 :: 100 :: [] := by decide +kernel
    have hplain : ∀ c ∈ ascii "Cannot find current job ", c ≠ 37 := by decide +kernel
    have hdigits : formatArgs (37 :: 108 :: 100 :: []) [.int (jobId % 18446744073709551616)] =
        some (showInt (jobId % 18446744073709551616)) := by
      rw [formatArgs.eq_def]
      simp [formatArgs]
    unfold unscheduleJob errmsg
    rw [if_neg hnot, htext, formatArgs_text hplain, hdigits]
    rfl

/-- The theorem at the first job of a new database, which is unscheduled twice. -/
theorem unschedule_ends_first : ∃ db : Database,
    (unscheduleJob db 1).1 = .ok true ∧ (unscheduleJob db 1).2.row 1 = none := by
  obtain ⟨db, -, hmem, hid⟩ := scheduleJob_first
  have h := unschedule_ends db 1 hmem (le_of_eq hid.symm) [] (by simp)
  exact ⟨db, h.1, h.2.1⟩

end NedoCron
