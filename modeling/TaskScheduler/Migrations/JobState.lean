import TaskScheduler.Ledger.Change

/-! The migrations 0010 to 0012, from the `active` boolean to the lifecycle of a job: `upgrade` over a
database at schema 0009, with what the schema makes sure of there, and when the states that it leaves
follow the rules of the running system. -/

namespace TaskScheduler.Migrations

/-! ### The schema before -/

/-- `job_runs.status` at schema 0009. -/
inductive LegacyStatus
  | pending
  | queued
  | waiting
  | running
  | retrying
  | succeeded
  | failed
  | cancelled
  deriving DecidableEq, Repr

/-- `_NON_TERMINAL`. -/
def LegacyStatus.nonTerminal : LegacyStatus → Bool
  | .pending | .queued | .waiting | .running | .retrying => true
  | .succeeded | .failed | .cancelled => false

structure LegacyJob where
  jobId : Nat
  userId : String
  action : String
  jobType : JobType
  scheduledAt : Option Int
  cronExpr : Option String
  timezone : String
  cancelledAt : Option Int
  triggerOnJobId : Option Nat
  triggerOnStatus : Option TriggerStatus
  idempotencyKey : Option String
  active : Bool
  createdAt : Int
  updatedAt : Int
  deriving DecidableEq, Repr

structure LegacyRun where
  runId : Nat
  jobId : Nat
  userId : String
  scheduledAt : Int
  status : LegacyStatus
  result : Option String
  errorMessage : Option String
  errorCode : Option String
  waitForRunId : Option Nat
  startAt : Option Int
  finishAt : Option Int
  createdAt : Int
  updatedAt : Int
  deriving DecidableEq, Repr

/-- The columns of an event that the migrations read or write. -/
structure EventRow where
  eventId : Nat
  runId : Nat
  eventType : String
  processedBy : List (String × Int)
  deriving DecidableEq, Repr

/-- `uq_job_runs_job_scheduled_nonterminal`: two rows that may not both be in the table. -/
def LegacyRun.clashes (a b : LegacyRun) : Bool :=
  a.jobId == b.jobId && a.scheduledAt == b.scheduledAt && a.status.nonTerminal &&
    b.status.nonTerminal

/-- A database at schema 0009: its keys are unique, references lead to rows, and its check constraint
and its unique index hold. -/
structure Legacy where
  jobs : List LegacyJob
  runs : List LegacyRun
  events : List EventRow
  jobKeys : (jobs.map (·.jobId)).Nodup
  runKeys : (runs.map (·.runId)).Nodup
  trigger : ∀ j ∈ jobs, ∀ p ∈ j.triggerOnJobId, ∃ i ∈ jobs, i.jobId = p
  runJob : ∀ r ∈ runs, ∃ j ∈ jobs, j.jobId = r.jobId
  schedule : ∀ j ∈ jobs, (j.jobType = .recurring ↔ j.cronExpr.isSome = true) ∧
    (j.jobType = .oneShot → j.scheduledAt.isSome = true)
  live : runs.Pairwise fun a b => a.clashes b = false

/-! ### The upgrades -/

/-- The row with the column that 0010 adds, and without the one that it drops. -/
def LegacyJob.withState (j : LegacyJob) (state : JobState) : Job where
  jobId := j.jobId
  userId := j.userId
  action := j.action
  jobType := j.jobType
  scheduledAt := j.scheduledAt
  cronExpr := j.cronExpr
  timezone := j.timezone
  cancelledAt := j.cancelledAt
  triggerOnJobId := j.triggerOnJobId
  triggerOnStatus := j.triggerOnStatus
  idempotencyKey := j.idempotencyKey
  state := state
  createdAt := j.createdAt
  updatedAt := j.updatedAt

/-- 0010: the column with its default, and the two updates of the backfill. -/
def jobStateLifecycle (runs : List LegacyRun) (jobs : List LegacyJob) : List Job :=
  let rows := jobs.map fun j => j.withState .active
  let rows := rows.map fun j => if j.cancelledAt.isSome then { j with state := .cancelled } else j
  rows.map fun j =>
    if j.cancelledAt.isNone && j.cronExpr.isNone &&
        !runs.any (fun r => r.jobId == j.jobId && r.status.nonTerminal) then
      { j with state := .completed }
    else j

/-- The cause groups of 0011: two runs by one trigger run, or by one tick of the schedule. -/
def LegacyRun.sameCause (a b : LegacyRun) : Bool :=
  a.jobId == b.jobId &&
    match a.waitForRunId, b.waitForRunId with
    | none, none => a.scheduledAt == b.scheduledAt
    | some u, some v => u == v
    | _, _ => false

/-- `ORDER BY (status IN _NON_TERMINAL) DESC, run_id`. -/
def LegacyRun.before (a b : LegacyRun) : Bool :=
  (a.status.nonTerminal && !b.status.nonTerminal) ||
    (a.status.nonTerminal == b.status.nonTerminal && decide (a.runId < b.runId))

/-- `_RANKED_DUPLICATE_RUN_IDS`: the runs that are not the first of their group. -/
def rankedDuplicateRunIds (runs : List LegacyRun) : List Nat :=
  (runs.filter fun r => runs.any fun a => a.sameCause r && a.before r).map (·.runId)

/-- `CREATE UNIQUE INDEX`: it aborts where two rows clash. -/
def createUniqueIndex {α : Type} (clash : α → α → Bool) : List α → Option Unit
  | [] => some ()
  | row :: rows => if rows.any (clash row) then none else createUniqueIndex clash rows

/-- `processed_by || jsonb_build_object('continuation', ...)`. -/
def EventRow.stamp (now : Int) (e : EventRow) : EventRow :=
  { e with processedBy := (e.processedBy.filter fun kv => kv.1 != "continuation") ++
      [("continuation", now)] }

/-- 0011: the events of the duplicates, the duplicates, the two indexes, which are over disjoint rows
and together forbid two rows of one cause, and the stamp of the terminal events. -/
def runCauseUniqueConstraints (now : Int) (runs : List LegacyRun) (events : List EventRow) :
    Option (List LegacyRun × List EventRow) := do
  let duplicates := rankedDuplicateRunIds runs
  let events := events.filter fun e => e.runId ∉ duplicates
  let runs := runs.filter fun r => r.runId ∉ duplicates
  createUniqueIndex LegacyRun.sameCause runs
  return (runs, events.map fun e =>
    if e.eventType ∈ ["SUCCEEDED", "FAILED", "CANCELLED"] then e.stamp now else e)

/-- The status of a run that 0012 does not convert. -/
def LegacyStatus.current : LegacyStatus → RunStatus
  | .pending => .pending
  | .queued => .queued
  | .waiting => .cancelled
  | .running => .running
  | .retrying => .retrying
  | .succeeded => .succeeded
  | .failed => .failed
  | .cancelled => .cancelled

/-- The row after 0012; the heartbeat column is still to come. -/
def LegacyRun.convert (now : Int) (r : LegacyRun) : JobRun where
  runId := r.runId
  jobId := r.jobId
  userId := r.userId
  scheduledAt := r.scheduledAt
  status := r.status.current
  result := r.result
  errorMessage := r.errorMessage
  errorCode := r.errorCode
  waitForRunId := r.waitForRunId
  startAt := r.startAt
  finishAt := r.finishAt
  heartbeatAt := none
  createdAt := r.createdAt
  updatedAt := if r.status = .waiting then now else r.updatedAt

/-- 0012: the waiting runs are cancelled, and the index of the live runs is rebuilt. -/
def removeWaitingStatus (now : Int) (runs : List LegacyRun) : Option (List JobRun) := do
  let runs := runs.map (LegacyRun.convert now)
  createUniqueIndex (fun a b => a.jobId == b.jobId && a.scheduledAt == b.scheduledAt &&
    a.status.executing && b.status.executing) runs
  return runs

/-- The database after the three migrations. -/
structure Upgraded where
  jobs : List Job
  runs : List JobRun
  events : List EventRow

def Upgraded.tables (db : Upgraded) : Tables := { jobs := db.jobs, runs := db.runs }

/-- The upgrades 0010 to 0012, one transaction each, at their own clock readings. -/
def Legacy.upgrade (db : Legacy) (now now' : Int) : Option Upgraded := do
  let jobs := jobStateLifecycle db.runs db.jobs
  let (runs, events) ← runCauseUniqueConstraints now db.runs db.events
  let runs ← removeWaitingStatus now' runs
  return ⟨jobs, runs, events⟩

/-! ### What the upgrades leave -/

/-- The state that the backfill gives a job. -/
def LegacyJob.backfill (runs : List LegacyRun) (j : LegacyJob) : JobState :=
  if j.cancelledAt.isSome then .cancelled
  else if j.cronExpr.isNone &&
      !runs.any (fun r => r.jobId == j.jobId && r.status.nonTerminal) then .completed
  else .active

theorem jobStateLifecycle_eq (runs : List LegacyRun) (jobs : List LegacyJob) :
    jobStateLifecycle runs jobs = jobs.map fun j => j.withState (j.backfill runs) := by
  unfold jobStateLifecycle
  rw [List.map_map, List.map_map]
  refine List.map_congr_left fun j _ => ?_
  simp only [Function.comp_apply, LegacyJob.backfill]
  cases hc : j.cancelledAt.isSome with
  | true =>
    have hnone : j.cancelledAt.isNone = false := by
      rw [← Option.not_isSome, hc, Bool.not_true]
    simp [LegacyJob.withState, hc, hnone]
  | false =>
    have hnone : j.cancelledAt.isNone = true := by
      rw [← Option.not_isSome, hc, Bool.not_false]
    simp only [LegacyJob.withState, hc, hnone, Bool.false_eq_true, if_false, Bool.true_and]
    split <;> rfl

theorem createUniqueIndex_eq {α : Type} {clash : α → α → Bool} {rows : List α}
    (h : rows.Pairwise fun a b => clash a b = false) : createUniqueIndex clash rows = some () := by
  induction rows with
  | nil => rfl
  | cons row rows ih =>
    obtain ⟨hrow, hrows⟩ := List.pairwise_cons.mp h
    have hnone : rows.any (clash row) = false := by simpa using hrow
    rw [createUniqueIndex, hnone, if_neg Bool.false_ne_true, ih hrows]

theorem current_executing (s : LegacyStatus) :
    s.current.executing = true ↔ s.nonTerminal = true ∧ s ≠ .waiting := by
  cases s <;> decide

namespace Legacy

variable (db : Legacy) {now now' : Int} {r : LegacyRun}

/-- The runs that 0011 keeps. -/
def kept : List LegacyRun := db.runs.filter fun r => r.runId ∉ rankedDuplicateRunIds db.runs

theorem mem_duplicates {id : Nat} : id ∈ rankedDuplicateRunIds db.runs ↔
    ∃ x ∈ db.runs, (∃ a ∈ db.runs, a.sameCause x = true ∧ a.before x = true) ∧ x.runId = id := by
  simp only [rankedDuplicateRunIds, List.mem_map, List.mem_filter, List.any_eq_true,
    Bool.and_eq_true, and_assoc]

theorem mem_kept : r ∈ db.kept ↔
    r ∈ db.runs ∧ ∀ a ∈ db.runs, a.sameCause r = true → a.before r = false := by
  rw [kept, List.mem_filter, decide_eq_true_eq, mem_duplicates]
  refine and_congr_right fun hr => ⟨fun h a ha hcause => ?_, ?_⟩
  · by_contra hbefore
    exact h ⟨r, hr, ⟨a, ha, hcause, by simpa using hbefore⟩, rfl⟩
  · rintro h ⟨x, hx, ⟨a, ha, hcause, hbefore⟩, hid⟩
    -- run ids are unique, so the duplicate of that id is the run itself
    obtain rfl := List.inj_on_of_nodup_map db.runKeys hx hr hid
    exact Bool.false_ne_true ((h a ha hcause).symm.trans hbefore)

theorem sameCause_symm (a b : LegacyRun) : a.sameCause b = b.sameCause a := by
  unfold LegacyRun.sameCause
  rw [show (a.jobId == b.jobId) = (b.jobId == a.jobId) from BEq.comm]
  cases a.waitForRunId <;> cases b.waitForRunId <;> simp [BEq.comm]

/-- The ranks within a group are a linear order. -/
theorem before_total {a b : LegacyRun} (hab : a.before b = false) (hba : b.before a = false) :
    a.runId = b.runId := by
  unfold LegacyRun.before at hab hba
  cases ha : a.status.nonTerminal <;> cases hb : b.status.nonTerminal <;>
    simp only [ha, hb, Bool.not_true, Bool.not_false, Bool.and_true, Bool.and_false, Bool.true_and,
      Bool.false_or, Bool.true_or, beq_self_eq_true, decide_eq_false_iff_not,
      Bool.true_eq_false] at hab hba <;> omega

/-- Two rows that are kept are not of one cause. -/
theorem kept_pairwise : db.kept.Pairwise fun a b => a.sameCause b = false := by
  have hnodup : db.kept.Nodup := List.Nodup.of_map _ (db.runKeys.sublist (List.filter_sublist.map _))
  refine hnodup.pairwise_of_forall_ne fun a ha b hb hne => ?_
  obtain ⟨har, hafirst⟩ := db.mem_kept.mp ha
  obtain ⟨hbr, hbfirst⟩ := db.mem_kept.mp hb
  by_contra hsame
  rw [Bool.not_eq_false] at hsame
  have hab := hbfirst a har hsame
  have hba := hafirst b hbr (sameCause_symm a b ▸ hsame)
  exact hne (List.inj_on_of_nodup_map db.runKeys har hbr (before_total hab hba))

/-- The events that 0011 keeps, stamped where they are terminal. -/
def keptEvents (now : Int) : List EventRow :=
  (db.events.filter fun e => e.runId ∉ rankedDuplicateRunIds db.runs).map fun e =>
    if e.eventType ∈ ["SUCCEEDED", "FAILED", "CANCELLED"] then e.stamp now else e

theorem runCauseUniqueConstraints_eq (now : Int) :
    runCauseUniqueConstraints now db.runs db.events = some (db.kept, db.keptEvents now) := by
  have hindex : createUniqueIndex LegacyRun.sameCause db.kept = some () :=
    createUniqueIndex_eq db.kept_pairwise
  change (createUniqueIndex LegacyRun.sameCause db.kept).bind _ = _
  rw [hindex]
  rfl

theorem removeWaitingStatus_eq (now : Int) :
    removeWaitingStatus now db.kept = some (db.kept.map (LegacyRun.convert now)) := by
  have hlive : (db.kept.map (LegacyRun.convert now)).Pairwise fun a b =>
      (a.jobId == b.jobId && a.scheduledAt == b.scheduledAt && a.status.executing &&
        b.status.executing) = false := by
    rw [List.pairwise_map]
    refine (db.live.sublist List.filter_sublist).imp fun {a b} hclash => ?_
    by_contra hboth
    simp only [Bool.not_eq_false, Bool.and_eq_true, LegacyRun.convert, current_executing] at hboth
    obtain ⟨⟨⟨hjob, hat⟩, hla, -⟩, hlb, -⟩ := hboth
    rw [LegacyRun.clashes, hjob, hat, hla, hlb] at hclash
    cases hclash
  unfold removeWaitingStatus
  dsimp only
  rw [createUniqueIndex_eq hlive]
  rfl

/-- Every upgrade goes through. -/
theorem upgrade_eq (now now' : Int) : db.upgrade now now' =
    some ⟨db.jobs.map fun j => j.withState (j.backfill db.runs),
      db.kept.map (LegacyRun.convert now'), db.keptEvents now⟩ := by
  unfold upgrade
  simp only [runCauseUniqueConstraints_eq, removeWaitingStatus_eq, jobStateLifecycle_eq,
    Option.bind_eq_bind, Option.bind_some, Option.pure_def]

end Legacy

/-! ### The rules of the lifecycle -/

/-- The state of the job is the one that the rules of the running system give it: a job that is not
cancelled consumes the box where it is recurring, has a run to execute, or is chained under an active
job. -/
structure LifecycleRules (t : Tables) (j : Job) : Prop where
  cancelled : j.cancelledAt.isSome = true → j.state = .cancelled
  recurring : j.cancelledAt = none → j.jobType = .recurring → j.state = .active
  active : j.cancelledAt = none → j.jobType ≠ .recurring →
    (j.state = .active ↔ t.Executing j.jobId ∨ ∃ p, j.triggerOnJobId = some p ∧ t.Active p)
  completed : j.cancelledAt = none → j.state ≠ .active → j.state = .completed

namespace Legacy

variable (db : Legacy)

/-- The job has a run that has not ended, a waiting one included. -/
def Live (id : Nat) : Prop := ∃ r ∈ db.runs, r.jobId = id ∧ r.status.nonTerminal = true

/-- The job is not cancelled, and it is recurring or has a run that has not ended. -/
def Resident (id : Nat) : Prop :=
  ∃ j ∈ db.jobs, j.jobId = id ∧ j.cancelledAt = none ∧ (j.jobType = .recurring ∨ db.Live id)

/-- The job has a run that executes, and that is the earliest of its cause that has not ended. -/
def Executes (id : Nat) : Prop :=
  ∃ r ∈ db.runs, r.jobId = id ∧ r.status.nonTerminal = true ∧ r.status ≠ .waiting ∧
    ∀ a ∈ db.runs, a.sameCause r = true → a.status.nonTerminal = true → r.runId ≤ a.runId

/-- The trigger of the job is resident. -/
def UnderResident (j : LegacyJob) : Prop := ∃ p, j.triggerOnJobId = some p ∧ db.Resident p

/-- Every job that is to have an end has a run that has not ended where it is chained under a resident
job, and where it has one, it has also one that executes, or a resident trigger. -/
def Settled : Prop :=
  ∀ j ∈ db.jobs, j.cancelledAt = none → j.jobType ≠ .recurring →
    (db.UnderResident j → db.Live j.jobId) ∧
      (db.Live j.jobId → db.Executes j.jobId ∨ db.UnderResident j)

variable {db} {now now' : Int} {m : Upgraded}

theorem backfill_active {j : LegacyJob} (hj : j ∈ db.jobs) : j.backfill db.runs = .active ↔
    j.cancelledAt = none ∧ (j.jobType = .recurring ∨ db.Live j.jobId) := by
  have hrecurring : j.cronExpr.isNone = true ↔ j.jobType ≠ .recurring := by
    rw [Ne, (db.schedule j hj).1, Option.not_isSome_iff_eq_none, Option.isNone_iff_eq_none]
  have hlive : db.runs.any (fun r => r.jobId == j.jobId && r.status.nonTerminal) = true ↔
      db.Live j.jobId := by
    simp only [List.any_eq_true, Bool.and_eq_true, beq_iff_eq, Live]
  unfold LegacyJob.backfill
  split
  · next hc => simp [Option.isSome_iff_ne_none.mp hc]
  · next hc =>
    rw [Option.not_isSome_iff_eq_none] at hc
    split
    · next h =>
      rw [Bool.and_eq_true, hrecurring, Bool.not_eq_true', ← Bool.not_eq_true, hlive] at h
      simp [hc, h.1, h.2]
    · next h =>
      rw [Bool.and_eq_true, hrecurring, Bool.not_eq_true', ← Bool.not_eq_true, hlive] at h
      refine iff_of_true rfl ⟨hc, ?_⟩
      by_contra hno
      exact h (not_or.mp hno)

/-- The states that the backfill gives, by cases. -/
theorem backfill_cases {j : LegacyJob} :
    (j.cancelledAt.isSome = true → j.backfill db.runs = .cancelled) ∧
      (j.cancelledAt = none → j.backfill db.runs ≠ .active → j.backfill db.runs = .completed) := by
  unfold LegacyJob.backfill
  refine ⟨fun h => if_pos h, fun h hne => ?_⟩
  rw [h] at hne ⊢
  simp only [Option.isSome_none, Bool.false_eq_true, if_false] at hne ⊢
  split
  · rfl
  · next hno => exact absurd (if_neg hno) hne

/-- Before a run that has not ended, there are the earlier ones that have not ended. -/
theorem before_live {a r : LegacyRun} (hr : r.status.nonTerminal = true) :
    a.before r = false ↔ (a.status.nonTerminal = true → r.runId ≤ a.runId) := by
  unfold LegacyRun.before
  cases ha : a.status.nonTerminal <;> simp [hr]

/-- The database after the upgrades, with its rows. -/
theorem upgrade_rows (h : db.upgrade now now' = some m) :
    m.tables.jobs = (db.jobs.map fun j => j.withState (j.backfill db.runs)) ∧
      m.tables.runs = db.kept.map (LegacyRun.convert now') := by
  rw [upgrade_eq, Option.some.injEq] at h
  rw [← h]
  exact ⟨rfl, rfl⟩

theorem executing_iff (h : db.upgrade now now' = some m) (id : Nat) :
    m.tables.Executing id ↔ db.Executes id := by
  obtain ⟨-, hruns⟩ := upgrade_rows h
  unfold Tables.Executing Executes
  rw [hruns]
  constructor
  · rintro ⟨_, hx, hid, hexec⟩
    obtain ⟨r, hr, rfl⟩ := List.mem_map.mp hx
    obtain ⟨hlive, hnot⟩ := (current_executing r.status).mp hexec
    obtain ⟨hmem, hfirst⟩ := db.mem_kept.mp hr
    exact ⟨r, hmem, hid, hlive, hnot, fun a ha hcause => (before_live hlive).mp (hfirst a ha hcause)⟩
  · rintro ⟨r, hr, hid, hlive, hnot, hfirst⟩
    have hkept := db.mem_kept.mpr ⟨hr, fun a ha hcause => (before_live hlive).mpr (hfirst a ha hcause)⟩
    exact ⟨r.convert now', List.mem_map_of_mem hkept, hid, (current_executing r.status).mpr ⟨hlive, hnot⟩⟩

theorem active_iff (h : db.upgrade now now' = some m) (id : Nat) :
    m.tables.Active id ↔ db.Resident id := by
  obtain ⟨hjobs, -⟩ := upgrade_rows h
  unfold Tables.Active Resident
  rw [hjobs]
  constructor
  · rintro ⟨_, hx, hid, hactive⟩
    obtain ⟨j, hj, rfl⟩ := List.mem_map.mp hx
    obtain ⟨hnone, hload⟩ := (backfill_active hj).mp hactive
    have hid : j.jobId = id := hid
    exact ⟨j, hj, hid, hnone, hid ▸ hload⟩
  · rintro ⟨j, hj, rfl, hnone, hload⟩
    exact ⟨_, List.mem_map_of_mem hj, rfl, (backfill_active hj).mpr ⟨hnone, hload⟩⟩

theorem executes_live {id : Nat} (h : db.Executes id) : db.Live id := by
  obtain ⟨r, hr, hid, hlive, -⟩ := h
  exact ⟨r, hr, hid, hlive⟩

/-- One job after the upgrades. -/
theorem upgrade_job (h : db.upgrade now now' = some m) {j : LegacyJob} (hj : j ∈ db.jobs) :
    LifecycleRules m.tables (j.withState (j.backfill db.runs)) ↔
      (j.cancelledAt = none → j.jobType ≠ .recurring →
        (db.UnderResident j → db.Live j.jobId) ∧
          (db.Live j.jobId → db.Executes j.jobId ∨ db.UnderResident j)) := by
  have hparent : (∃ p, j.triggerOnJobId = some p ∧ m.tables.Active p) ↔ db.UnderResident j :=
    exists_congr fun p => and_congr_right fun _ => active_iff h p
  constructor
  · intro hrules hnone honce
    have hactive := hrules.active hnone honce
    rw [show (j.withState (j.backfill db.runs)).jobId = j.jobId from rfl, executing_iff h] at hactive
    change j.backfill db.runs = .active ↔ _ ∨ ∃ p, j.triggerOnJobId = some p ∧ _ at hactive
    rw [hparent, backfill_active hj] at hactive
    exact ⟨fun hp => ((hactive.mpr (.inr hp)).2).resolve_left honce,
      fun hl => hactive.mp ⟨hnone, .inr hl⟩⟩
  · intro hsettled
    refine ⟨backfill_cases.1, fun hnone hrec => (backfill_active hj).mpr ⟨hnone, .inl hrec⟩,
      fun hnone honce => ?_, backfill_cases.2⟩
    obtain ⟨hunder, hlive⟩ := hsettled hnone honce
    rw [show (j.withState (j.backfill db.runs)).jobId = j.jobId from rfl, executing_iff h]
    change j.backfill db.runs = .active ↔ _ ∨ ∃ p, j.triggerOnJobId = some p ∧ _
    rw [hparent, backfill_active hj]
    constructor
    · rintro ⟨-, hrec | hl⟩
      · exact absurd hrec honce
      · exact hlive hl
    · rintro (hexec | hp)
      · exact ⟨hnone, .inr (executes_live hexec)⟩
      · exact ⟨hnone, .inr (hunder hp)⟩

theorem rules_iff (h : db.upgrade now now' = some m) :
    (∀ j ∈ m.tables.jobs, LifecycleRules m.tables j) ↔ db.Settled := by
  rw [(upgrade_rows h).1, List.forall_mem_map]
  exact forall_congr' fun j => forall_congr' fun hj => upgrade_job h hj

/-- Under the rules, the running system has no job left to settle. -/
theorem not_exhausted (h : db.upgrade now now' = some m)
    (hrules : ∀ j ∈ m.tables.jobs, LifecycleRules m.tables j) (id : Nat) :
    ¬m.tables.Exhausted id := by
  rintro ⟨x, hx, rfl, hactive, hcron, hidle, hparent⟩
  have hx' := hrules x hx
  obtain ⟨j, hj, rfl⟩ := List.mem_map.mp ((upgrade_rows h).1 ▸ hx)
  have honce : j.jobType ≠ .recurring := by
    rw [Ne, (db.schedule j hj).1, Option.not_isSome_iff_eq_none]
    exact hcron
  have hnone : j.cancelledAt = none := by
    rw [← Option.not_isSome_iff_eq_none]
    intro hc
    cases (hx'.cancelled hc).symm.trans hactive
  rcases (hx'.active hnone honce).mp hactive with hexec | ⟨p, hp, hpactive⟩
  · exact hidle hexec
  · exact hparent p hp hpactive

/-- The upgrades go through on every database, and the states that they leave follow the rules of the
running system exactly where the database was settled before; then no job is left that counts against
a quota and that nothing will settle. -/
theorem upgrade_settled (db : Legacy) (now now' : Int) : ∃ m, db.upgrade now now' = some m ∧
    ((∀ j ∈ m.tables.jobs, LifecycleRules m.tables j) ↔ db.Settled) ∧
    (db.Settled → ∀ id, ¬m.tables.Exhausted id) := by
  have h := db.upgrade_eq now now'
  exact ⟨_, h, rules_iff h, fun hsettled => not_exhausted h ((rules_iff h).mpr hsettled)⟩

/-- A job and a run of schema 0009. -/
def echoJob (jobId : Nat) (cronExpr : Option String) (triggerOnJobId : Option Nat) : LegacyJob where
  jobId := jobId
  userId := "alice"
  action := "echo"
  jobType := if cronExpr.isSome then .recurring else .oneShot
  scheduledAt := if cronExpr.isSome then none else some 0
  cronExpr := cronExpr
  timezone := "UTC"
  cancelledAt := none
  triggerOnJobId := triggerOnJobId
  triggerOnStatus := none
  idempotencyKey := none
  active := true
  createdAt := 0
  updatedAt := 0

def echoRun (runId jobId : Nat) (status : LegacyStatus) (waitForRunId : Option Nat) : LegacyRun where
  runId := runId
  jobId := jobId
  userId := "alice"
  scheduledAt := 0
  status := status
  result := none
  errorMessage := none
  errorCode := none
  waitForRunId := waitForRunId
  startAt := none
  finishAt := none
  createdAt := 0
  updatedAt := 0

/-- A recurring job and one chained under it whose run has ended; and a job that has ended and one
chained under it whose run still waits. -/
def twoChains : Legacy where
  jobs := [echoJob 1 (some "* * * * *") none, echoJob 2 none (some 1), echoJob 3 none none,
    echoJob 4 none (some 3)]
  runs := [echoRun 1 1 .pending none, echoRun 2 2 .succeeded (some 1), echoRun 3 3 .succeeded none,
    echoRun 4 4 .waiting (some 3)]
  events := []
  jobKeys := by decide
  runKeys := by decide
  trigger := by decide
  runJob := by decide
  schedule := by decide
  live := by decide

/-- The second job is completed under an active one, and the fourth one stays active for good. -/
theorem twoChains_breaks : ∃ m, twoChains.upgrade 0 0 = some m ∧
    (∃ j ∈ m.jobs, j.jobId = 2 ∧ j.state = .completed ∧ ∃ p ∈ m.jobs,
      j.triggerOnJobId = some p.jobId ∧ p.state = .active) ∧
    (∃ j ∈ m.jobs, j.jobId = 4 ∧ j.state = .active ∧
      (∀ p ∈ m.jobs, j.triggerOnJobId = some p.jobId → p.state = .completed) ∧
      ∀ r ∈ m.runs, r.jobId = 4 → r.status = .cancelled) ∧
    ¬∀ j ∈ m.tables.jobs, LifecycleRules m.tables j := by
  have hrun : (twoChains.upgrade 0 0).any (fun m => decide (
      (∃ j ∈ m.jobs, j.jobId = 2 ∧ j.state = .completed ∧ j.cancelledAt = none ∧
        j.jobType ≠ .recurring ∧ ∃ p ∈ m.jobs, j.triggerOnJobId = some p.jobId ∧ p.state = .active) ∧
      ∃ j ∈ m.jobs, j.jobId = 4 ∧ j.state = .active ∧
        (∀ p ∈ m.jobs, j.triggerOnJobId = some p.jobId → p.state = .completed) ∧
        ∀ r ∈ m.runs, r.jobId = 4 → r.status = .cancelled)) = true := by
    decide +kernel
  obtain ⟨m, hm, hend⟩ := (Option.any_eq_true _ _).mp hrun
  obtain ⟨⟨j, hj, hid, hstate, hnone, honce, p, hp, htrigger, hactive⟩, hfourth⟩ :=
    of_decide_eq_true hend
  refine ⟨m, hm, ⟨j, hj, hid, hstate, p, hp, htrigger, hactive⟩, hfourth, fun hrules => ?_⟩
  have hj' := ((hrules j hj).active hnone honce).mpr (.inr ⟨_, htrigger, p, hp, rfl, hactive⟩)
  rw [hstate] at hj'
  cases hj'

end Legacy

end TaskScheduler.Migrations
