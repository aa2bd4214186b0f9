import TaskScheduler.Config.DateTime
import TaskScheduler.Domain.ChainValidation
import TaskScheduler.Domain.RunMaterializer

/-! The operations on jobs, `app/domain/jobs.py`: creation, the settle of a finished lifecycle and
its cascade along the chains, and cancellation. -/

namespace TaskScheduler

/-- `_SUPPORTED_SCHEDULE_TYPES`. -/
inductive ScheduleType
  | immediate
  | oneShot
  | recurring
  deriving DecidableEq, Repr

def ScheduleType.parse (s : String) : Option ScheduleType :=
  if s = "immediate" then some .immediate
  else if s = "one-shot" then some .oneShot
  else if s = "recurring" then some .recurring
  else none

/-- `_VALID_TRIGGER_ON_STATUS`. -/
def TriggerStatus.parse (s : String) : Option TriggerStatus :=
  if s = "SUCCEEDED" then some .succeeded
  else if s = "FAILED" then some .failed
  else if s = "ANY" then some .any
  else none

/-- The arguments of `create_job`. -/
structure CreateArgs where
  userId : String
  action : String
  scheduleType : String
  idempotencyKey : Option String
  scheduledAt : Option String
  timezone : Option String
  cronExpr : Option String
  tzHeader : Option String
  tzEnv : Option String
  triggerOnJobId : Option Nat
  triggerOnStatus : Option String
  operatorUserId : Option String
  deriving DecidableEq, Repr

/-- What the checks before the transaction settle: the timing columns of the job, and the trigger
predicate that was asked for. -/
structure CreatePlan where
  runAt : Int
  timezone : String
  cronExpr : Option String
  triggerOnStatus : Option TriggerStatus
  deriving DecidableEq, Repr

/-- `timezone or "UTC"`. -/
def timezoneOrUtc (timezone : Option String) : String :=
  if timezone.getD "" = "" then "UTC" else timezone.getD ""

/-- `_parse_and_normalise_scheduled_at`; the `OverflowError` of `astimezone` is not caught. -/
def parseScheduledAt (libs : Libs) (now : Int) (scheduledAt : Option String) (tz : String) :
    Except Err Int :=
  match scheduledAt with
  | none => .error (.invalidScheduledAt "scheduled_at is required for one-shot scheduling")
  | some text =>
    match libs.fromIsoFormat text tz with
    | none => .error (.invalidScheduledAt ("Cannot parse scheduled_at '" ++ text ++ "' as ISO 8601"))
    | some at_ =>
      if !inUtcYears at_ then .error .overflow
      else if at_ ≤ now then
        .error (.invalidScheduledAt ("scheduled_at '" ++ text ++ "' must be in the future"))
      else .ok at_

/-- The timing columns by schedule type. -/
def planSchedule (libs : Libs) (now : Int) (args : CreateArgs) (scheduleType : ScheduleType)
    (triggerOnStatus : Option TriggerStatus) : Except Err CreatePlan :=
  match scheduleType with
  | .recurring =>
    let cronExpr := args.cronExpr.getD ""
    if cronExpr = "" then
      .error (.invalidCronExpr ("cron_expr is required for recurring jobs; " ++
        "use a 5-field POSIX expression like '0 8 * * *'"))
    else
      match validateCronExpr libs cronExpr with
      | .error hint => .error (.invalidCronExpr hint)
      | .ok () =>
        let tz := resolveTimezone libs args.timezone args.tzHeader args.tzEnv
        if !libs.zoneInfo tz then .error (.invalidTimezone tz)
        else
          match nextAfter libs cronExpr tz now with
          | none => .error .badDate
          | some runAt => .ok ⟨runAt, tz, some cronExpr, triggerOnStatus⟩
  | .oneShot =>
    let tz := timezoneOrUtc args.timezone
    if !libs.zoneInfo tz then .error (.invalidTimezone tz)
    else
      match parseScheduledAt libs now args.scheduledAt tz with
      | .error e => .error e
      | .ok runAt => .ok ⟨runAt, tz, none, triggerOnStatus⟩
  | .immediate => .ok ⟨now, timezoneOrUtc args.timezone, none, triggerOnStatus⟩

/-- The checks of `create_job` before its transaction. -/
def planCreate (libs : Libs) (now : Int) (args : CreateArgs) : Except Err CreatePlan :=
  match ScheduleType.parse args.scheduleType with
  | none => .error (.unsupportedScheduleType args.scheduleType)
  | some scheduleType =>
    match actionRegistry args.action with
    | none => .error (.unknownAction args.action)
    | some handler =>
      if handler.requiresOperator && args.operatorUserId != some args.userId then
        .error (.operatorOnlyAction args.action)
      else
        match args.triggerOnStatus, args.triggerOnStatus.bind TriggerStatus.parse with
        | some text, none => .error (.valueError text)
        | _, triggerOnStatus =>
          match validateRunSource args.triggerOnJobId args.cronExpr with
          | .error e => .error e
          | .ok () => planSchedule libs now args scheduleType triggerOnStatus

/-- The row that `create_job` inserts. -/
def Job.new (args : CreateArgs) (plan : CreatePlan) : Job where
  jobId := 0
  userId := args.userId
  action := args.action
  jobType := if plan.cronExpr.isSome then .recurring else .oneShot
  scheduledAt := if plan.cronExpr.isSome then none else some plan.runAt
  cronExpr := plan.cronExpr
  timezone := plan.timezone
  cancelledAt := none
  triggerOnJobId := args.triggerOnJobId
  triggerOnStatus :=
    if args.triggerOnJobId.isSome then some (plan.triggerOnStatus.getD .succeeded) else none
  idempotencyKey := args.idempotencyKey
  state := .active
  createdAt := 0
  updatedAt := 0

/-- The insert of `create_job`: the job, and for a schedule-driven one its first run.  A chained job
has no run until its trigger fires. -/
def insertNewJob (args : CreateArgs) (plan : CreatePlan) : Txn Nat := do
  match ← Txn.insertJob (.new args plan) with
  | none => Txn.raise .integrity
  | some jobId =>
    if args.triggerOnJobId.isNone then
      match ← materializeInitial { Job.new args plan with jobId := jobId } plan.runAt with
      | .error .concurrency => Txn.raise .concurrency
      | .error .integrity => Txn.raise .integrity
      | .ok _ => return jobId
    else return jobId

/-- The idempotency short-circuit of `create_job`: the job that an earlier call created. -/
def existingJob (args : CreateArgs) : Txn (Option Job) :=
  match args.idempotencyKey with
  | none => return none
  | some key => do
    let rows ← Txn.loadJobs fun j => j.idempotencyKey == some key && j.userId == args.userId
    return rows.head?

/-- The rest of `create_job` once no earlier call has created the job. -/
def createNew (args : CreateArgs) (plan : CreatePlan) : Txn Nat :=
  match args.triggerOnJobId with
  | none => insertNewJob args plan
  | some triggerOnJobId => do
    validateChain args.userId triggerOnJobId
    insertNewJob args plan

/-- `create_job`; the result is the id of the job that it returns. -/
def createJob (libs : Libs) (now : Int) (args : CreateArgs) : Txn Nat :=
  match planCreate libs now args with
  | .error e => Txn.raise e
  | .ok plan => do
    match ← existingJob args with
    | some job => return job.jobId
    | none => createNew args plan

/-- The assignments of a settle. -/
def Job.settle (now : Int) (j : Job) : Job := { j with state := .completed, updatedAt := now }

/-- The assignments of a cancel. -/
def Job.cancel (now : Int) (j : Job) : Job :=
  { j with state := .cancelled, cancelledAt := some now, updatedAt := now }

/-- `settle_job`: the compare-and-set of a finished one-shot job that is not chained. -/
def settleJob (now : Int) (jobId : Nat) : Txn Bool := do
  let settled ← Txn.updateJobs
    (fun j => j.jobId == jobId && j.state == .active && j.jobType != .recurring &&
      j.triggerOnJobId.isNone)
    (Job.settle now)
  return !settled.isEmpty

/-- `_settle_downstreams`: `check` on every job that `parentJobId` triggers. -/
def settleDownstreams (check : Nat → Txn Bool) (parentJobId : Nat) : Txn Unit := do
  let downstreams ← Txn.selectJobs fun j => j.triggerOnJobId == some parentJobId
  downstreams.forM fun d => do
    let _ ← check d.jobId

/-- Whether the trigger parent of a job still produces upstream runs; a job without one settles. -/
def triggerParentActive (job : Job) : Txn Bool :=
  match job.triggerOnJobId with
  | none => return false
  | some parent => do
    let rows ← Txn.selectJobs fun j => j.jobId == parent
    return rows.head?.any fun p => p.state == .active

/-- `settle_check`: the compare-and-set of a job whose schedule is exhausted, and the cascade to its
downstreams.  `depth` is the recursion limit of the interpreter. -/
def settleCheck (now : Int) : Nat → Nat → Txn Bool
  | 0, _ => Txn.raise .recursion
  | depth + 1, jobId => do
    match (← Txn.loadJobs fun j => j.jobId == jobId).head? with
    | none => return false
    | some job =>
      if job.state != .active then return false
      else if job.cronExpr.isSome then return false
      else
        acquireJobLock jobId
        if ← hasExecutingRun jobId then
          return false
        if ← triggerParentActive job then
          return false
        let settled ← Txn.updateJobs (fun j => j.jobId == jobId && j.state == .active)
          (Job.settle now)
        if settled.isEmpty then
          return false
        settleDownstreams (settleCheck now depth) jobId
        return true

/-- The sort key of the latest run, `coalesce(start_at, scheduled_at)`. -/
def JobRun.latestKey (r : JobRun) : Int := r.startAt.getD r.scheduledAt

def latestRun : List JobRun → Option JobRun
  | [] => none
  | r :: rs =>
    match latestRun rs with
    | none => some r
    | some m => if m.latestKey ≤ r.latestKey then some r else some m

/-- `_terminal_status_hint`. -/
def terminalStatusHint (jobId : Nat) : Txn RunStatus := do
  let runs ← Txn.selectRuns fun r => r.jobId == jobId
  return ((latestRun runs).map (·.status)).getD .succeeded

/-- The view that `cancel_job` returns (`_cancelled_view`). -/
structure CancelledView where
  jobId : Nat
  action : String
  jobState : JobState
  deriving DecidableEq, Repr

def cancelledView (job : Job) : CancelledView := ⟨job.jobId, job.action, .cancelled⟩

/-- The assignment of the flip loop of `cancel_job`. -/
def JobRun.flip (r : JobRun) : JobRun := { r with status := .cancelled }

/-- One iteration of the flip loop of `cancel_job`: the update carries no guard on the status that
was read. -/
def flipRun (jobId : Nat) (run : JobRun) : Txn Unit := do
  if run.status.cancellable then
    let _ ← Txn.updateRuns (fun r => r.runId == run.runId) JobRun.flip
    Txn.insertEvent (.new run.runId jobId .cancelled (some run.status) (some .cancelled) none)

/-- The transaction of `cancel_job` once its compare-and-set has won. -/
def cancelRuns (now : Int) (depth jobId : Nat) : Txn Unit := do
  let runs ← Txn.selectRuns fun r => r.jobId == jobId
  runs.forM (flipRun jobId)
  settleDownstreams (settleCheck now depth) jobId

/-- `cancel_job`. -/
def cancelJob (now : Int) (depth : Nat) (userId : String) (jobId : Nat) : Txn CancelledView := do
  match (← Txn.loadJobs fun j => j.jobId == jobId && j.userId == userId).head? with
  | none => Txn.raise (.jobNotFound jobId)
  | some job =>
    match job.state with
    | .cancelled => return cancelledView job
    | .completed => do
      let hint ← terminalStatusHint jobId
      Txn.raise (.invalidState hint)
    | .active =>
      let cas ← Txn.updateJobs (fun j => j.jobId == jobId && j.state == .active)
        (Job.cancel now)
      if cas.isEmpty then
        match (← Txn.selectJobs fun j => j.jobId == jobId).head? with
        | none => Txn.raise .noResultFound
        | some fresh =>
          if fresh.state == .cancelled then return cancelledView job
          else
            let hint ← terminalStatusHint jobId
            Txn.raise (.invalidState hint)
      else
        cancelRuns now depth jobId
        return cancelledView job

end TaskScheduler
