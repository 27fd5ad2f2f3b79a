import NedoCron.Invalidation
import Mathlib.Logic.Function.Basic

namespace NedoCron

/-!
# nedo_cron — the extension comes and goes

The worker runs whether or not the extension exists in its database.  It registers the callback
for `nedo_cron.jobs` once, in the first iteration that finds the table, and it keeps the relation
id of the first table it reads; the trigger on the table keeps a relation id in every session
that changes it.

A `Site` is the worker with its database while the extension is created and dropped: reloads are
single steps, relation ids are not used twice, and invalidations arrive when the worker accepts
them or starts a transaction.

* `Site.Visible` — after the reload decision the worker knows the existing table and every commit
  to it from before the iteration;
* `Site.Undisturbed` — the steps that do not run into one of the remembered ids or into a flag
  that is still set;
* `visible_of_undisturbed` — runs of such steps.
-/

/-! ### The worker and its database -/

/-- An incarnation of `nedo_cron.jobs`, with the numbers of the commits that changed its rows. -/
structure Relation where
  oid : Nat
  rows : JobsTable
  commits : List Nat

/-- How far the worker is with an iteration of its loop, and how many commits there were when
    it began. -/
inductive LoopPhase where
  | launched
  /-- after `AcceptInvalidationMessages` -/
  | accepted (currentTime : Int) (began : Nat)
  /-- after `RegisterCronJobRelcacheCallbackIfNeeded`, with the number of commits at the
      registration if the callback was registered just now -/
  | registered (currentTime : Int) (began : Nat) (fresh : Option Nat)
  /-- after the reload decision, up to the next iteration -/
  | decided (began : Nat)

/-- The worker, its database and the sessions that change the jobs. -/
structure Site where
  worker : World
  phase : LoopPhase
  /-- `CronJobRelcacheOid`, once `CronJobRelcacheCallbackRegistered` -/
  registeredOid : Option Nat
  /-- `CachedCronJobRealtionId` of the worker -/
  cachedOid : Option Nat
  /-- the existing `nedo_cron.jobs` -/
  relation : Option Relation
  nextOid : Nat
  /-- `CachedCronJobRealtionId` of the sessions -/
  sessions : Nat → Option Nat
  /-- the relation ids of the invalidations the worker has not accepted -/
  undelivered : List Nat
  /-- how many changes of the table have been committed, and its rows after each -/
  commits : Nat
  versions : Nat → JobsTable

/-- A worker that is started before the extension exists. -/
def Site.launch (statementTimeout : StatementTimeout) (history : History) : Site where
  worker := World.launch statementTimeout history
  phase := .launched
  registeredOid := none
  cachedOid := none
  relation := none
  nextOid := 1
  sessions _ := none
  undelivered := []
  commits := 0
  versions _ := noRows

inductive SiteEvent where
  /-- `CREATE EXTENSION` is committed -/
  | createExtension
  /-- `DROP EXTENSION` is committed -/
  | dropExtension
  /-- a session commits a change of the rows -/
  | commit (session : Nat) (rows : JobsTable)
  /-- an iteration begins, up to `AcceptInvalidationMessages` -/
  | begin (currentTime : Int)
  /-- `RegisterCronJobRelcacheCallbackIfNeeded` -/
  | register
  /-- a configuration change after SIGHUP -/
  | sighup (statementTimeout : StatementTimeout)
  /-- the reload decision, with the reload -/
  | decide (entry : Int → CronTask)
  /-- a transaction starts in the rest of the iteration -/
  | transaction
  /-- a step of the rest of the iteration -/
  | work (l : Label)

/-- The rows of a table that may not exist. -/
def rowsOf (relation : Option Relation) : JobsTable := (relation.map Relation.rows).getD noRows

/-- A change of the table is committed, and the invalidations are sent. -/
def Site.change (s : Site) (relation : Option Relation) (relids : List Nat) : Site :=
  { s with
    relation := relation
    commits := s.commits + 1
    versions := Function.update s.versions (s.commits + 1) (rowsOf relation)
    undelivered := s.undelivered ++ relids }

/-- Accept all invalidations: `CronJobRelcacheCallback` clears the flag for its relation id. -/
def Site.accept (s : Site) : Site :=
  { s with
    worker :=
      if s.registeredOid.any (fun oid => s.undelivered.contains oid) then s.worker.step .invalidate
      else s.worker
    undelivered := [] }

/-- An error ends the worker, and a new one is started. -/
def Site.relaunch (s : Site) : Site :=
  { s with
    worker := World.launch s.worker.statementTimeout s.worker.history
    phase := .launched
    registeredOid := none
    cachedOid := none
    undelivered := [] }

/-- What `LoadJobsList` reads before the extension exists. -/
def noExtension (entry : Int → CronTask) : ReloadSource where
  recoveryInProgress := false
  cronLoaded := false
  table := noRows
  entry := entry

/-- `ReloadCronJobs`: it opens the table by `CronJobRelationId()`, and opening a table that has
    been dropped is an error. -/
def Site.reload (s : Site) (currentTime : Int) (began : Nat) (entry : Int → CronTask) : Site :=
  match s.relation with
  | none =>
    { s with
      worker := s.worker.step (.reload (noExtension entry) currentTime)
      phase := .decided began }
  | some relation =>
    -- the id is looked up once and kept, also when the table is dropped
    if s.cachedOid.getD relation.oid = relation.oid then
      { s with
        worker := s.worker.step (.reload (scanSource relation.rows entry) currentTime)
        phase := .decided began
        cachedOid := some relation.oid }
    else s.relaunch

/-- The steps of the rest of an iteration. -/
def Label.isTaskStep : Label → Bool
  | .startPending _ => true
  | .wait _ => true
  | .manage _ _ _ _ => true
  | .deleteRuns _ => true
  | _ => false

/-- One event. -/
def Site.step (s : Site) : SiteEvent → Site
  | .createExtension =>
    match s.relation with
    | none => { s.change (some ⟨s.nextOid, noRows, []⟩) [s.nextOid] with nextOid := s.nextOid + 1 }
    | some _ => s
  | .dropExtension =>
    match s.relation with
    | none => s
    | some relation => s.change none [relation.oid]
  | .commit session rows =>
    match s.relation with
    | none => s
    | some relation =>
      -- the trigger invalidates the table it finds under the id its session remembers
      let oid := (s.sessions session).getD relation.oid
      { s.change
          (some { relation with rows := rows, commits := (s.commits + 1) :: relation.commits })
          (if oid = relation.oid then [oid] else []) with
        sessions := Function.update s.sessions session (some oid) }
  | .begin currentTime =>
    match s.phase with
    | .launched => { s.accept with phase := .accepted currentTime s.commits }
    | .decided _ => { s.accept with phase := .accepted currentTime s.commits }
    | _ => s
  | .register =>
    match s.phase with
    | .accepted currentTime began =>
      -- one shot: a later table is not looked for
      if s.registeredOid.isSome then { s with phase := .registered currentTime began none }
      else match s.relation with
        | none => { s.accept with phase := .registered currentTime began none }
        | some relation =>
          { s.accept with
            -- `CronJobCacheValid` stays as an earlier reload has left it
            phase := .registered currentTime began (some s.commits)
            registeredOid := some relation.oid }
    | _ => s
  | .sighup statementTimeout =>
    match s.phase with
    | .registered _ _ _ => { s with worker := s.worker.step (.sighup statementTimeout) }
    | _ => s
  | .decide entry =>
    match s.phase with
    | .registered currentTime began _ =>
      if s.worker.mustReload currentTime then s.accept.reload currentTime began entry
      else { s with phase := .decided began }
    | _ => s
  | .transaction =>
    match s.phase with
    | .decided _ => s.accept
    | _ => s
  | .work l =>
    match s.phase with
    | .decided _ => if l.isTaskStep then { s with worker := s.worker.step l } else s
    | _ => s

/-- `CronJobRelationId()`, called now. -/
def Site.cronJobRelationId (s : Site) : Option Nat :=
  match s.cachedOid with
  | some oid => some oid
  | none => s.relation.map Relation.oid

/-- `CronJobHashTable` reflects a commit: it holds the jobs of the table as it was after the
    commit or later. -/
def Site.Reflects (s : Site) (commit : Nat) : Prop :=
  ∃ n, commit ≤ n ∧ n ≤ s.commits ∧ s.worker.jobs = loadJobsList false true (s.versions n)

/-- When the reload decision is made, every commit to the existing table from before the
    iteration is in the job table, and the relation ids are those of the existing table. -/
def Site.Visible (s : Site) : Prop :=
  ∀ began relation, s.phase = .decided began → s.relation = some relation →
    ∀ commit ∈ relation.commits, commit ≤ began →
      s.Reflects commit ∧ s.cronJobRelationId = some relation.oid ∧
        s.registeredOid = some relation.oid

/-- The extension is created only while the worker remembers no relation id; a session that
    remembers one does not change a later table; and the iteration that registers the callback
    reloads, unless the job table holds what the table held at the registration. -/
def Site.Undisturbed (s : Site) : SiteEvent → Prop
  | .createExtension => s.registeredOid = none ∧ s.cachedOid = none
  | .commit session _ => ∀ oid relation, s.sessions session = some oid →
      s.relation = some relation → oid = relation.oid
  | .decide _ => ∀ currentTime began commits,
      s.phase = .registered currentTime began (some commits) →
      s.worker.mustReload currentTime = true ∨
        s.worker.jobs = loadJobsList false true (s.versions commits)
  | _ => True

/-! ### The invariant -/

/-- An invalidation of the table the callback is registered for is under way. -/
def Site.Notified (s : Site) : Prop :=
  ∃ oid, s.registeredOid = some oid ∧ oid ∈ s.undelivered

/-- The job table holds the rows as they were after some commit from `began` on, and the worker
    hears of later ones if the flag is set. -/
def Site.Current (s : Site) (began : Nat) : Prop :=
  ∃ n, began ≤ n ∧ n ≤ s.commits ∧ s.worker.jobs = loadJobsList false true (s.versions n) ∧
    (s.worker.cacheValid = true → n = s.commits ∨ s.Notified)

/-- What holds of the job table in each phase, once the callback is registered. -/
def Site.PhaseOk (s : Site) : LoopPhase → Prop
  | .launched => False
  | .accepted _ began => s.worker.cacheValid = true → s.Current began
  | .registered _ began none => s.worker.cacheValid = true → s.Current began
  | .registered _ began (some commits) =>
    began ≤ commits ∧ commits ≤ s.commits ∧ (commits = s.commits ∨ s.Notified)
  | .decided began => s.Current began

/-- The number of commits when the iteration began. -/
def LoopPhase.began : LoopPhase → Option Nat
  | .launched => none
  | .accepted _ began => some began
  | .registered _ began _ => some began
  | .decided began => some began

/-- The callback has had its chance to be registered in this iteration. -/
def LoopPhase.pastRegister : LoopPhase → Bool
  | .registered _ _ _ => true
  | .decided _ => true
  | _ => false

/-- The invariant of undisturbed runs: the remembered relation ids are those of the existing
    table, if there is one. -/
structure Site.Ok (s : Site) : Prop where
  rows : s.versions s.commits = rowsOf s.relation
  registered : ∀ oid relation, s.registeredOid = some oid → s.relation = some relation →
    relation.oid = oid
  cached : ∀ oid relation, s.cachedOid = some oid → s.relation = some relation →
    relation.oid = oid
  began : ∀ began, s.phase.began = some began → began ≤ s.commits
  seen : ∀ began relation commit, s.phase.pastRegister = true → s.phase.began = some began →
    s.relation = some relation → commit ∈ relation.commits → commit ≤ began →
    s.registeredOid.isSome = true
  current : s.registeredOid.isSome = true → s.PhaseOk s.phase

/-- A new worker remembers no relation, so there is nothing to compare. -/
theorem siteOk_launch (statementTimeout : StatementTimeout) (history : History) :
    (Site.launch statementTimeout history).Ok where
  rows := rfl
  registered oid relation h := absurd h (by simp [Site.launch])
  cached oid relation h := absurd h (by simp [Site.launch])
  began began h := absurd h (by simp [Site.launch, LoopPhase.began])
  seen began relation commit h := absurd h (by simp [Site.launch, LoopPhase.pastRegister])
  current h := absurd h (by simp [Site.launch])

/-! ### Changes of the table -/

/-- A committed change leaves what the job table holds a former version of the table. -/
theorem Site.Current.change {s : Site} {began : Nat} (h : s.Current began)
    (relation : Option Relation) {relids : List Nat}
    (hsent : ∀ oid, s.registeredOid = some oid → oid ∈ relids)
    (hregistered : s.registeredOid.isSome = true) : (s.change relation relids).Current began := by
  obtain ⟨n, hbegan, hn, hjobs, -⟩ := h
  obtain ⟨oid, hoid⟩ := Option.isSome_iff_exists.mp hregistered
  refine ⟨n, hbegan, Nat.le_succ_of_le hn, ?_, fun _ => Or.inr ⟨oid, hoid, ?_⟩⟩
  -- the former version is still on record, and the change is announced
  · have hne : n ≠ s.commits + 1 := by omega
    show s.worker.jobs =
      loadJobsList false true (Function.update s.versions (s.commits + 1) (rowsOf relation) n)
    rw [Function.update_of_ne hne]
    exact hjobs
  · exact List.mem_append_right _ (hsent oid hoid)

/-- A commit whose invalidation is sent keeps what holds of the job table. -/
theorem Site.PhaseOk.change {s : Site} {phase : LoopPhase} (h : s.PhaseOk phase)
    (relation : Option Relation) {relids : List Nat}
    (hsent : ∀ oid, s.registeredOid = some oid → oid ∈ relids)
    (hregistered : s.registeredOid.isSome = true) : (s.change relation relids).PhaseOk phase := by
  obtain ⟨oid, hoid⟩ := Option.isSome_iff_exists.mp hregistered
  cases phase with
  | launched => exact h
  | accepted currentTime began =>
    exact fun hvalid => Site.Current.change (h hvalid) relation hsent hregistered
  | registered currentTime began fresh =>
    cases fresh with
    | none => exact fun hvalid => Site.Current.change (h hvalid) relation hsent hregistered
    | some commits =>
      exact ⟨h.1, Nat.le_succ_of_le h.2.1,
        Or.inr ⟨oid, hoid, List.mem_append_right _ (hsent oid hoid)⟩⟩
  | decided began => exact Site.Current.change h relation hsent hregistered

/-- **A committed change** that sends an invalidation for the registered id. -/
theorem Site.Ok.change {s : Site} (h : s.Ok) (relation : Option Relation) (relids : List Nat)
    (hsent : ∀ oid, s.registeredOid = some oid → oid ∈ relids)
    (hregistered : ∀ oid r, s.registeredOid = some oid → relation = some r → r.oid = oid)
    (hcached : ∀ oid r, s.cachedOid = some oid → relation = some r → r.oid = oid)
    (hold : ∀ r commit, relation = some r → commit ∈ r.commits → commit ≤ s.commits →
      ∃ r', s.relation = some r' ∧ commit ∈ r'.commits) : (s.change relation relids).Ok where
  rows := Function.update_self _ _ _
  registered := hregistered
  cached := hcached
  began began hbegan := Nat.le_succ_of_le (h.began began hbegan)
  seen began r commit hpast hbegan hr hmem hle := by
    have hcommits := h.began began hbegan
    obtain ⟨r', hr', hmem'⟩ := hold r commit hr hmem (by omega)
    exact h.seen began r' commit hpast hbegan hr' hmem' hle
  current hsome := (h.current hsome).change relation hsent hsome

/-- `CREATE EXTENSION`, while the worker remembers no relation id. -/
theorem siteOk_create {s : Site} (h : s.Ok) (hregistered : s.registeredOid = none)
    (hcached : s.cachedOid = none) : (s.step .createExtension).Ok := by
  unfold Site.step
  dsimp only
  cases hrelation : s.relation with
  | some relation => exact h
  | none =>
    have hchange := h.change (some ⟨s.nextOid, noRows, []⟩) [s.nextOid]
      (fun oid hoid => absurd (hregistered.symm.trans hoid) (by simp))
      (fun oid r hoid => absurd (hregistered.symm.trans hoid) (by simp))
      (fun oid r hoid => absurd (hcached.symm.trans hoid) (by simp))
      (fun r commit hr hmem => by
        obtain rfl := Option.some.inj hr
        exact absurd hmem (by simp))
    exact ⟨hchange.rows, hchange.registered, hchange.cached, hchange.began, hchange.seen,
      hchange.current⟩

/-- `DROP EXTENSION`: there is no table to compare with. -/
theorem siteOk_drop {s : Site} (h : s.Ok) : (s.step .dropExtension).Ok := by
  unfold Site.step
  dsimp only
  cases hrelation : s.relation with
  | none => exact h
  | some relation =>
    refine h.change none [relation.oid] (fun oid hoid => ?_) (fun _ _ _ hr => ?_)
      (fun _ _ _ hr => ?_) fun _ _ hr => ?_
    · rw [h.registered oid relation hoid hrelation]
      exact List.mem_singleton_self oid
    · exact absurd hr (by simp)
    · exact absurd hr (by simp)
    · exact absurd hr (by simp)

/-- A commit of a session that knows the table. -/
theorem siteOk_commit {s : Site} (h : s.Ok) {session : Nat}
    (hsession : ∀ oid relation, s.sessions session = some oid → s.relation = some relation →
      oid = relation.oid) (rows : JobsTable) : (s.step (.commit session rows)).Ok := by
  unfold Site.step
  dsimp only
  cases hrelation : s.relation with
  | none => exact h
  | some relation =>
    -- the session finds the present table under the id it remembers
    have hoid : (s.sessions session).getD relation.oid = relation.oid := by
      cases hcase : s.sessions session with
      | none => rfl
      | some oid => exact hsession oid relation hcase hrelation
    dsimp only
    rw [if_pos hoid, hoid]
    have hchange := h.change
      (some { relation with rows := rows, commits := (s.commits + 1) :: relation.commits })
      [relation.oid]
      (fun oid hregistered => by
        rw [h.registered oid relation hregistered hrelation]
        exact List.mem_singleton_self oid)
      (fun oid r hregistered hr => by
        obtain rfl := Option.some.inj hr
        exact h.registered oid relation hregistered hrelation)
      (fun oid r hcached hr => by
        obtain rfl := Option.some.inj hr
        exact h.cached oid relation hcached hrelation)
      (fun r commit hr hmem hle => by
        obtain rfl := Option.some.inj hr
        refine ⟨relation, hrelation, (List.mem_cons.mp hmem).resolve_left ?_⟩
        omega)
    exact ⟨hchange.rows, hchange.registered, hchange.cached, hchange.began, hchange.seen,
      hchange.current⟩

/-! ### Steps of the worker -/

/-- Accepting invalidations leaves the job table alone, and the flag is set afterwards only if
    none was for the registered id. -/
theorem accept_worker (s : Site) : s.accept.worker.jobs = s.worker.jobs ∧
    (s.accept.worker.cacheValid = true → s.worker.cacheValid = true ∧ ¬s.Notified) := by
  unfold Site.accept
  dsimp only
  by_cases hany : s.registeredOid.any (fun oid => s.undelivered.contains oid) = true
  · rw [if_pos hany]
    exact ⟨rfl, fun hvalid => absurd hvalid Bool.false_ne_true⟩
  · rw [if_neg hany]
    refine ⟨rfl, fun hvalid => ⟨hvalid, fun hnotified => hany ?_⟩⟩
    obtain ⟨oid, hoid, hmem⟩ := hnotified
    rw [hoid, Option.any_some]
    exact List.contains_iff_mem.mpr hmem

/-- Once all invalidations are accepted, a job table with the flag set holds the present rows. -/
theorem Site.Current.accept {s : Site} {began : Nat} (h : s.Current began) :
    s.accept.Current began ∧
      (s.accept.worker.cacheValid = true → s.accept.Current s.commits) := by
  obtain ⟨n, hbegan, hn, hjobs, hvalid⟩ := h
  obtain ⟨hsame, hflag⟩ := accept_worker s
  -- the flag has survived, so no invalidation of the table was under way
  have hlast : s.accept.worker.cacheValid = true → n = s.commits := by
    intro hset
    obtain ⟨hset', hnot⟩ := hflag hset
    exact (hvalid hset').resolve_right hnot
  refine ⟨⟨n, hbegan, hn, hsame.trans hjobs, fun hset => Or.inl (hlast hset)⟩, fun hset => ?_⟩
  exact ⟨n, (hlast hset).ge, hn, hsame.trans hjobs, fun _ => Or.inl (hlast hset)⟩

/-- The worker begins an iteration and receives what has been sent. -/
theorem siteOk_begin {s : Site} (h : s.Ok) (currentTime : Int) :
    (s.step (.begin currentTime)).Ok := by
  -- `began` is set to the number of commits: what is loaded must now be present
  have haccepted : (s.registeredOid.isSome = true → ∃ began, s.Current began) →
      ({ s.accept with phase := .accepted currentTime s.commits } : Site).Ok := by
    intro hcurrent
    refine ⟨h.rows, h.registered, h.cached, fun began hbegan => ?_, fun _ _ _ hpast => ?_,
      fun hsome hvalid => ?_⟩
    · obtain rfl := Option.some.inj hbegan
      exact le_refl _
    · exact absurd hpast Bool.false_ne_true
    · obtain ⟨began, hold⟩ := hcurrent hsome
      exact hold.accept.2 hvalid
  have hphaseOk := h.current
  unfold Site.step
  dsimp only
  cases hphase : s.phase with
  | launched =>
    rw [hphase] at hphaseOk
    exact haccepted fun hsome => (hphaseOk hsome).elim
  | decided began =>
    rw [hphase] at hphaseOk
    exact haccepted fun hsome => ⟨began, hphaseOk hsome⟩
  | accepted time began => exact h
  | registered time began fresh => exact h

/-- The callback is registered, or the extension is not there yet. -/
theorem siteOk_register {s : Site} (h : s.Ok) : (s.step .register).Ok := by
  have hphaseOk := h.current
  unfold Site.step
  dsimp only
  cases hphase : s.phase with
  | launched => exact h
  | registered time began fresh => exact h
  | decided began => exact h
  | accepted time began =>
    rw [hphase] at hphaseOk
    have hbegan := h.began began (by rw [hphase]; rfl)
    have hlater : ∀ b, some began = some b → b ≤ s.commits := by
      intro b hb
      obtain rfl := Option.some.inj hb
      exact hbegan
    dsimp only
    -- registered before, or registered now if the extension is there
    by_cases hregistered : s.registeredOid.isSome = true
    · rw [if_pos hregistered]
      exact ⟨h.rows, h.registered, h.cached, hlater, fun _ _ _ _ _ _ _ _ => hregistered, hphaseOk⟩
    · rw [if_neg hregistered]
      cases hrelation : s.relation with
      | none =>
        dsimp only
        refine ⟨h.rows, h.registered, h.cached, hlater, fun _ r _ _ _ hr => ?_,
          fun hsome => absurd hsome hregistered⟩
        exact absurd (hrelation.symm.trans hr) (by simp)
      | some relation =>
        dsimp only
        refine ⟨h.rows, fun oid r hoid hr => ?_, h.cached, hlater, fun _ _ _ _ _ _ _ _ => rfl,
          fun _ => ⟨hbegan, le_refl _, Or.inl rfl⟩⟩
        obtain rfl := Option.some.inj (hrelation.symm.trans hr)
        exact Option.some.inj hoid

/-- The settings are read again; the tables stay. -/
theorem siteOk_sighup {s : Site} (h : s.Ok) (statementTimeout : StatementTimeout) :
    (s.step (.sighup statementTimeout)).Ok := by
  have hphaseOk := h.current
  unfold Site.step
  dsimp only
  cases hphase : s.phase with
  | launched => exact h
  | accepted time began => exact h
  | decided began => exact h
  | registered time began fresh =>
    have hbegan := h.began
    have hseen := h.seen
    rw [hphase] at hphaseOk hbegan hseen
    dsimp only
    refine ⟨h.rows, h.registered, h.cached, hbegan, hseen, fun hsome => ?_⟩
    cases fresh with
    -- SIGHUP clears the flag, so the decision will reload
    | none => exact fun hvalid => absurd hvalid Bool.false_ne_true
    | some commits => exact hphaseOk hsome

/-- A step that leaves the tables and the worker's phase alone. -/
theorem siteOk_decided {s : Site} (h : s.Ok) {worker : World} {undelivered : List Nat}
    {began : Nat} (hphase : s.phase.began = some began) (hpast : s.phase.pastRegister = true)
    (hcurrent : s.registeredOid.isSome = true →
      ({ s with worker := worker, phase := .decided began, undelivered := undelivered } :
        Site).Current began) :
    ({ s with worker := worker, phase := .decided began, undelivered := undelivered } :
      Site).Ok where
  rows := h.rows
  registered := h.registered
  cached := h.cached
  began b hb := by
    obtain rfl := Option.some.inj hb
    exact h.began _ hphase
  seen b relation commit _ hb := by
    obtain rfl := Option.some.inj hb
    exact h.seen _ relation commit hpast hphase
  current := hcurrent

/-- What a reload without an error leads to. -/
theorem siteOk_reloaded {s : Site} (h : s.Ok) {began : Nat} (hphase : s.phase.began = some began)
    (hpast : s.phase.pastRegister = true) (source : ReloadSource) (currentTime : Int)
    (hsource : loadJobsList source.recoveryInProgress source.cronLoaded source.table =
      loadJobsList false true (rowsOf s.relation)) :
    ({ s with
      worker := s.accept.worker.step (.reload source currentTime)
      phase := .decided began
      undelivered := [] } : Site).Ok := by
  refine siteOk_decided h hphase hpast fun _ => ?_
  refine ⟨s.commits, h.began began hphase, le_refl _, ?_, fun _ => Or.inl rfl⟩
  show loadJobsList source.recoveryInProgress source.cronLoaded source.table = _
  rw [hsource, ← h.rows]

/-- A reload: the job table is that of the commits seen. -/
theorem siteOk_reload {s : Site} (h : s.Ok) {began : Nat} (hphase : s.phase.began = some began)
    (hpast : s.phase.pastRegister = true) (currentTime : Int) (entry : Int → CronTask) :
    (s.accept.reload currentTime began entry).Ok := by
  unfold Site.reload
  cases hrelation : s.relation with
  | none =>
    have hreloaded := siteOk_reloaded h hphase hpast (noExtension entry) currentTime
      (by rw [hrelation]; rfl)
    change (match s.relation with | none => _ | some relation => _ : Site).Ok
    rw [hrelation]
    exact hreloaded
  | some relation =>
    have hreloaded := siteOk_reloaded h hphase hpast (scanSource relation.rows entry)
      currentTime (by rw [hrelation]; rfl)
    change (match s.relation with | none => _ | some relation => _ : Site).Ok
    rw [hrelation]
    dsimp only
    split
    · refine ⟨hreloaded.rows, hreloaded.registered, fun oid r hoid hr => ?_, hreloaded.began,
        hreloaded.seen, hreloaded.current⟩
      obtain rfl := Option.some.inj (hrelation.symm.trans hr)
      exact Option.some.inj hoid
    · -- the next worker remembers nothing
      exact ⟨h.rows, fun oid r hoid => absurd hoid (by simp [Site.relaunch]),
        fun oid r hoid => absurd hoid (by simp [Site.relaunch]),
        fun b hb => absurd hb (by simp [Site.relaunch, LoopPhase.began]),
        fun b r c hnot => absurd hnot (by simp [Site.relaunch, LoopPhase.pastRegister]),
        fun hsome => absurd hsome (by simp [Site.relaunch])⟩

/-- The decision to reload or not. -/
theorem siteOk_decide {s : Site} (h : s.Ok) {entry : Int → CronTask}
    (hreloads : s.Undisturbed (.decide entry)) : (s.step (.decide entry)).Ok := by
  have hphaseOk := h.current
  unfold Site.step
  dsimp only
  cases hphase : s.phase with
  | launched => exact h
  | accepted time began => exact h
  | decided began => exact h
  | registered time began fresh =>
    rw [hphase] at hphaseOk
    have hbegan : s.phase.began = some began := by rw [hphase]; rfl
    have hpast : s.phase.pastRegister = true := by rw [hphase]; rfl
    dsimp only
    by_cases hmust : s.worker.mustReload time = true
    · rw [if_pos hmust]
      exact siteOk_reload h hbegan hpast time entry
    · rw [if_neg hmust]
      -- without a reload the flag is set, and the phase says what that is worth
      have hvalid : s.worker.cacheValid = true := by
        by_contra hnot
        refine hmust ?_
        rw [World.mustReload, Bool.not_eq_true _ |>.mp hnot]
        rfl
      refine siteOk_decided h hbegan hpast fun hsome => ?_
      cases fresh with
      | none => exact hphaseOk hsome hvalid
      | some commits =>
        -- the job table holds what the table held at the registration
        obtain ⟨hle, hcommits, hlater⟩ := hphaseOk hsome
        have hjobs := (hreloads time began commits hphase).resolve_left hmust
        exact ⟨commits, hle, hcommits, hjobs, fun _ => hlater⟩

/-- A transaction in the rest of the iteration accepts what has been sent. -/
theorem siteOk_transaction {s : Site} (h : s.Ok) : (s.step .transaction).Ok := by
  have hphaseOk := h.current
  unfold Site.step
  dsimp only
  cases hphase : s.phase with
  | decided began =>
    rw [hphase] at hphaseOk
    have hbegan : s.phase.began = some began := by rw [hphase]; rfl
    have hpast : s.phase.pastRegister = true := by rw [hphase]; rfl
    have haccepted := siteOk_decided h hbegan hpast fun hsome => (hphaseOk hsome).accept.1
    rw [← hphase] at haccepted
    exact haccepted
  | _ => exact h

/-- The rest of the iteration leaves the job table alone. -/
theorem siteOk_work {s : Site} (h : s.Ok) (l : Label) : (s.step (.work l)).Ok := by
  have hphaseOk := h.current
  unfold Site.step
  dsimp only
  cases hphase : s.phase with
  | decided began =>
    rw [hphase] at hphaseOk
    dsimp only
    by_cases htask : l.isTaskStep = true
    -- a step of a task neither reloads nor touches the flag
    · have hreload : l.isReload = false := by
        cases l <;> first | rfl | exact absurd htask (by simp [Label.isTaskStep])
      have hkept := cache_work s.worker hreload fun statementTimeout heq => by
        rw [heq] at htask
        exact absurd htask (by simp [Label.isTaskStep])
      have hbegan : s.phase.began = some began := by rw [hphase]; rfl
      have hpast : s.phase.pastRegister = true := by rw [hphase]; rfl
      rw [if_pos htask]
      refine siteOk_decided h hbegan hpast fun hsome => ?_
      obtain ⟨n, hle, hn, hjobs, hvalid⟩ := hphaseOk hsome
      exact ⟨n, hle, hn, hkept.1.trans hjobs, fun hset => hvalid (hkept.2 ▸ hset)⟩
    · rw [if_neg htask]
      exact h
  | _ => exact h

/-! ### Undisturbed runs -/

/-- **A step** that is not disturbed. -/
theorem siteOk_step {s : Site} (h : s.Ok) {e : SiteEvent} (hundisturbed : s.Undisturbed e) :
    (s.step e).Ok := by
  cases e with
  | createExtension => exact siteOk_create h hundisturbed.1 hundisturbed.2
  | dropExtension => exact siteOk_drop h
  | commit session rows => exact siteOk_commit h hundisturbed rows
  | begin currentTime => exact siteOk_begin h currentTime
  | register => exact siteOk_register h
  | sighup statementTimeout => exact siteOk_sighup h statementTimeout
  | decide entry => exact siteOk_decide h hundisturbed
  | transaction => exact siteOk_transaction h
  | work l => exact siteOk_work h l

/-- The invariant gives what is claimed of each decision. -/
theorem Site.Ok.visible {s : Site} (h : s.Ok) : s.Visible := by
  intro began relation hphase hrelation commit hmem hle
  have hsome := h.seen began relation commit (by rw [hphase]; rfl) (by rw [hphase]; rfl) hrelation
    hmem hle
  have hphaseOk := h.current hsome
  rw [hphase] at hphaseOk
  obtain ⟨oid, hoid⟩ := Option.isSome_iff_exists.mp hsome
  refine ⟨?_, ?_, ?_⟩
  · obtain ⟨n, hbegan, hn, hjobs, -⟩ := hphaseOk
    exact ⟨n, le_trans hle hbegan, hn, hjobs⟩
  · unfold Site.cronJobRelationId
    cases hcached : s.cachedOid with
    | none => rw [hrelation, Option.map_some]
    | some oid => rw [h.cached oid relation hcached hrelation]
  · rw [hoid, h.registered oid relation hoid hrelation]

/-- **Changes become visible at once** in every run without a disturbed step: in every state
    such a run reaches, whatever the order of its steps. -/
theorem visible_of_undisturbed (statementTimeout : StatementTimeout) (history : History)
    (es : List SiteEvent)
    (h : Machine.Guarded Site.step Site.Undisturbed (Site.launch statementTimeout history) es) :
    (Machine.run Site.step (Site.launch statementTimeout history) es).Visible :=
  (Machine.guarded_induction (fun _ _ hundisturbed hok => siteOk_step hok hundisturbed) h
    (siteOk_launch statementTimeout history)).visible

/-! ### A commit that is not seen -/

/-- An iteration up to its reload decision. -/
def iteration (currentTime : Int) : List SiteEvent :=
  [.begin currentTime, .register, .decide fun _ => clearedEntry]

/-- The extension is created, the worker finds it, and then a job is scheduled. -/
def scheduledLater : List SiteEvent :=
  iteration 1000000 ++ .createExtension :: iteration 2000000 ++
    .commit 0 oneJob :: iteration 3000000

/-- The theorem at a job that is scheduled after the registration. -/
theorem visible_of_undisturbed_later :
    let s := Machine.run Site.step (Site.launch defaultTimeout emptyHistory) scheduledLater
    (s.relation.map Relation.commits = some [2]) ∧ s.Visible := by
  refine ⟨by decide +kernel, ?_⟩
  apply visible_of_undisturbed
  refine ⟨trivial, trivial, ?_, ⟨rfl, rfl⟩, trivial, trivial, ?_, ?_, trivial, trivial, ?_, trivial⟩
  · intro time began commits hphase
    cases hphase
  · intro time began commits hphase
    cases hphase
    exact Or.inr rfl
  · intro oid relation hsession
    cases hsession
  · intro time began commits hphase
    cases hphase

/-- Extension and job are created between two iterations: the callback is registered too late to
    hear of the job, and the flag is still set by the reload from before the extension. -/
theorem not_visible :
    ¬∀ statementTimeout history es,
      (Machine.run Site.step (Site.launch statementTimeout history) es).Visible := by
  intro hall
  obtain ⟨⟨n, hle, hn, hjobs⟩, -⟩ := hall defaultTimeout emptyHistory
    (iteration 1000000 ++ .createExtension :: .commit 0 oneJob :: iteration 2000000) 2
    ⟨1, oneJob, [2]⟩ rfl rfl 2 (List.mem_singleton_self 2) (le_refl 2)
  obtain rfl : n = 2 := Nat.le_antisymm hn hle
  have hlookup := congrArg (fun jobs => jobs.lookup 7) hjobs
  exact absurd hlookup (by decide +kernel)

end NedoCron
