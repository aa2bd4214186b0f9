import TaskScheduler.Domain.Jobs

/-! The transactions of the worker, `app/workers/executor.py`: the claim of a run, and the write
that follows its action. -/

namespace TaskScheduler

/-- The statuses that a claim accepts. -/
def RunStatus.claimable : RunStatus → Bool
  | .pending | .queued | .retrying => true
  | _ => false

theorem RunStatus.claimable_eq_cancellable (s : RunStatus) : s.claimable = s.cancellable := by
  cases s <;> rfl

/-- The assignments of a claim. -/
def JobRun.start (now : Int) (r : JobRun) : JobRun :=
  { r with status := .running, startAt := some now, updatedAt := now, heartbeatAt := some now }

/-- `_claim`. -/
def claim (now : Int) (runId jobId : Nat) : Txn Bool := do
  let prev ← Txn.selectRuns fun r => r.runId == runId
  let claimed ← Txn.updateRuns (fun r => r.runId == runId && r.status.claimable) (JobRun.start now)
  if claimed.isEmpty then
    return false
  Txn.insertEvent (.new runId jobId .started (some ((prev.head?.map (·.status)).getD .queued))
    (some .running) none)
  return true

/-- The first transaction of `_dispatch`: the claim, and the job and run it loads once it has
won. -/
def claimTxn (now : Int) (runId jobId : Nat) : Txn Bool := do
  if ← claim now runId jobId then
    let _ ← Txn.loadJobs fun j => j.jobId == jobId
    let _ ← Txn.selectRuns fun r => r.runId == runId
    return true
  else return false

/-- What an action returns. -/
structure ActionResult where
  ok : Bool
  retryable : Bool
  result : Option String
  error : Option String
  errorCode : Option String
  deriving DecidableEq, Repr

/-- The event of a terminal status. -/
def RunStatus.event : RunStatus → EventType
  | .succeeded => .succeeded
  | .cancelled => .cancelled
  | _ => .failed

/-- The assignments of a terminal write. -/
def JobRun.finish (now : Int) (status : RunStatus) (res : ActionResult) (r : JobRun) : JobRun :=
  { r with
    status := status, finishAt := some now, updatedAt := now, result := res.result,
    errorMessage := res.error, errorCode := res.errorCode }

/-- `_write_terminal`: neither the update nor the event looks at the run's current status. -/
def writeTerminal (now : Int) (runId jobId : Nat) (status : RunStatus) (res : ActionResult) :
    Txn Unit := do
  let _ ← Txn.updateRuns (fun r => r.runId == runId) (JobRun.finish now status res)
  Txn.insertEvent (.new runId jobId status.event (some .running) (some status)
    (res.result.map .result))
  let _ ← settleJob now jobId

/-- The assignments of a failure without an action result. -/
def JobRun.fail (now : Int) (message : String) (r : JobRun) : JobRun :=
  { r with
    status := .failed, finishAt := some now, updatedAt := now, errorMessage := some message }

/-- `_write_permanent_failure`. -/
def writePermanentFailure (now : Int) (runId jobId : Nat) (message : String)
    (eventData : Option EventData) : Txn Unit := do
  let _ ← Txn.updateRuns (fun r => r.runId == runId) (JobRun.fail now message)
  Txn.insertEvent (.new runId jobId .failed (some .running) (some .failed) eventData)
  let _ ← settleJob now jobId

/-- The assignments of a retry. -/
def JobRun.retry (now : Int) (message : String) (r : JobRun) : JobRun :=
  { r with status := .retrying, updatedAt := now, errorMessage := some message }

/-- `_write_retrying`. -/
def writeRetrying (now : Int) (runId jobId : Nat) (message : String) : Txn Unit := do
  let _ ← Txn.updateRuns (fun r => r.runId == runId) (JobRun.retry now message)
  Txn.insertEvent (.new runId jobId .retry (some .running) (some .retrying) none)

/-- How the work on a claimed run ends: the action returned, it timed out or raised, or the job was
found invalid before dispatch (an unknown action, or parameters that do not validate). -/
inductive Outcome
  | returned (res : ActionResult)
  | raised (message : String)
  | invalid (message : String) (eventData : Option EventData)
  deriving DecidableEq, Repr

/-- The transaction of `_dispatch` that follows the work on a claimed run. -/
def finishTxn (now : Int) (runId jobId : Nat) : Outcome → Txn Unit
  | .returned res =>
    if res.ok then writeTerminal now runId jobId .succeeded res
    else if !res.retryable then writeTerminal now runId jobId .failed res
    else
      writeRetrying now runId jobId
        (if res.error.getD "" = "" then "retryable failure" else res.error.getD "")
  | .raised message => writeRetrying now runId jobId message
  | .invalid message eventData => writePermanentFailure now runId jobId message eventData

/-- `_bump_heartbeat_at`. -/
def bumpHeartbeatAt (now : Int) (runId : Nat) : Txn Unit := do
  let _ ← Txn.updateRuns (fun r => r.runId == runId) (fun r => { r with heartbeatAt := some now })

end TaskScheduler
