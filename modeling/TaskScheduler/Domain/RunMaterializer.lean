import TaskScheduler.Config.Cron
import TaskScheduler.Db.Session

/-! The owner of run creation, `app/domain/run_materializer.py`. -/

namespace TaskScheduler

/-- The two ways in which a run is not created: the job already has an executing run
(`ConcurrencyError`), or a unique index has the run's cause already (`IntegrityError`). -/
inductive SpawnError
  | concurrency
  | integrity
  deriving DecidableEq, Repr

/-- `_acquire_job_lock`. -/
def acquireJobLock (jobId : Nat) : Txn Unit := Txn.advisoryLock jobId

/-- `has_executing_run`. -/
def hasExecutingRun (jobId : Nat) : Txn Bool := do
  let runs ← Txn.selectRuns fun r => r.jobId == jobId && r.status.executing
  return !runs.isEmpty

/-- The row that `_spawn_run` inserts. -/
def JobRun.new (job : Job) (runAt : Int) (status : RunStatus) (waitForRunId : Option Nat) :
    JobRun where
  runId := 0
  jobId := job.jobId
  userId := job.userId
  scheduledAt := runAt
  status := status
  result := none
  errorMessage := none
  errorCode := none
  waitForRunId := waitForRunId
  startAt := none
  finishAt := none
  heartbeatAt := none
  createdAt := 0
  updatedAt := 0

/-- `_spawn_run`: under the job's lock, and with no executing run of it, a new run and its CREATED
event. -/
def spawnRun (job : Job) (runAt : Int) (status : RunStatus) (waitForRunId : Option Nat) :
    Txn (Except SpawnError Nat) := do
  acquireJobLock job.jobId
  if ← hasExecutingRun job.jobId then
    return .error .concurrency
  match ← Txn.insertRun (.new job runAt status waitForRunId) with
  | none => return .error .integrity
  | some runId =>
    Txn.insertEvent (.new runId job.jobId .created none (some status) none)
    return .ok runId

/-- `materialize_initial`: the first run of a schedule-driven job. -/
def materializeInitial (job : Job) (runAt : Int) : Txn (Except SpawnError Nat) :=
  spawnRun job runAt .pending none

/-- The reference instant of a successor: the terminal event, but after the tick of the run that
ended. -/
def successorAnchor (prevRun : JobRun) (occurredAt : Int) : Int :=
  max occurredAt (prevRun.scheduledAt + microsecond)

/-- `materialize_successor`: the next occurrence of a recurring job. -/
def materializeSuccessor (libs : Libs) (job : Job) (cronExpr : String) (prevRun : JobRun)
    (occurredAt : Int) : Txn (Except SpawnError Nat) := do
  let tz := if job.timezone = "" then "UTC" else job.timezone
  if !libs.zoneInfo tz then
    Txn.raise .zoneInfoNotFound
  else
    match nextAfter libs cronExpr tz (successorAnchor prevRun occurredAt) with
    | none => Txn.raise .badDate
    | some runAt => spawnRun job runAt .pending none

/-- `materialize_downstream`: the run of a chained job that the end of an upstream run causes. -/
def materializeDownstream (downstreamJob : Job) (upstreamRunId : Nat) (occurredAt : Int) :
    Txn (Except SpawnError Nat) :=
  spawnRun downstreamJob occurredAt .pending (some upstreamRunId)

end TaskScheduler
