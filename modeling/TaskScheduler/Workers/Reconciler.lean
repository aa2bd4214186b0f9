import TaskScheduler.Workers.Executor
import TaskScheduler.Workers.Watcher

/-! The three sweeps of the reconciler, `app/workers/reconciler.py`. -/

namespace TaskScheduler

/-- `sweep_dlq_retrying` (Sweep A): stale RETRYING runs fail.  It does not settle their jobs. -/
def sweepDlqRetrying (now grace : Int) (batchSize : Nat) : Txn Nat := do
  let runs ← Txn.lockRuns
    (fun r => r.status == .retrying && decide (r.updatedAt < now - grace)) batchSize
  if runs.isEmpty then
    return 0
  let _ ← Txn.updateRuns (fun r => decide (r.runId ∈ runs.map (·.runId)))
    (JobRun.fail now "exceeded_max_receive (likely DLQ)")
  runs.forM fun r =>
    Txn.insertEvent (.new r.runId r.jobId .failed (some .retrying) (some .failed)
      (some (.dlqReconcile r.updatedAt)))
  return runs.length

/-- One iteration of Sweep B: a run whose send raised is left for the next tick. -/
def requeueRun (now : Int) (sent : Nat → Bool) (r : JobRun) : Txn Unit := do
  if sent r.runId then
    let _ ← Txn.updateRuns (fun r' => r'.runId == r.runId) (fun r' => { r' with updatedAt := now })
    Txn.insertEvent (.new r.runId r.jobId .reenqueued (some .queued) (some .queued)
      (some .watcherSendFailed))

/-- `sweep_queued_stuck` (Sweep B): stale QUEUED runs that are past due are sent again, without
delay, inside the transaction; `sent` says which sends went through.  The second clock reading
`now'` dates the updates. -/
def sweepQueuedStuck (now now' grace : Int) (batchSize : Nat) (sent : Nat → Bool) :
    Txn (List JobRun) := do
  let runs ← Txn.lockRuns
    (fun r => r.status == .queued && decide (r.updatedAt < now - grace) &&
      decide (r.scheduledAt < now)) batchSize
  runs.forM (requeueRun now' sent)
  return runs

/-- The text that Sweep C leaves on a run it fails. -/
def runningOrphanMessage : String :=
  "running_orphan: worker died mid-run (non-idempotent, not retried)"

/-- One iteration of Sweep C: the run of an idempotent action is reset, another one fails and its
job settles. -/
def recoverRun (now : Int) (idempotent : Bool) (r : JobRun) : Txn Unit := do
  if idempotent then
    let _ ← Txn.updateRuns (fun r' => r'.runId == r.runId) (JobRun.queue now)
    Txn.insertEvent (.new r.runId r.jobId .reenqueued (some .running) (some .queued)
      (some (.runningOrphan r.heartbeatAt)))
  else
    let _ ← Txn.updateRuns (fun r' => r'.runId == r.runId) (JobRun.fail now runningOrphanMessage)
    Txn.insertEvent (.new r.runId r.jobId .failed (some .running) (some .failed)
      (some (.runningOrphan r.heartbeatAt)))
    let _ ← settleJob now r.jobId

/-- Whether the action of job `jobId` is known to be idempotent; a missing job or an unknown action
is not. -/
def isIdempotent (registry : String → Option ActionHandler) (jobs : List Job) (jobId : Nat) : Bool :=
  ((jobs.find? fun j => j.jobId == jobId).bind fun j => registry j.action).any (·.idempotent)

/-- `sweep_running_orphan` (Sweep C): RUNNING runs whose lease is stale.  The result is the runs
that were reset, which are sent again after the commit. -/
def sweepRunningOrphan (registry : String → Option ActionHandler) (now now' grace : Int)
    (batchSize : Nat) : Txn (List JobRun) := do
  let runs ← Txn.lockRuns
    (fun r => r.status == .running && r.heartbeatAt.all fun h => decide (h < now - grace)) batchSize
  if runs.isEmpty then
    return []
  let jobs ← Txn.selectJobs fun j => decide (j.jobId ∈ runs.map (·.jobId))
  runs.forM fun r => recoverRun now' (isIdempotent registry jobs r.jobId) r
  return runs.filter fun r => isIdempotent registry jobs r.jobId

end TaskScheduler
