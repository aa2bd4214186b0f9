import TaskScheduler.Db.Session

/-! The watcher, `app/workers/watcher.py`: it claims the runs that are due within its lookahead and
publishes them. -/

namespace TaskScheduler

/-- One second. -/
def second : Int := 1000000

/-- `LOOKAHEAD`. -/
def lookahead : Int := 5 * 60 * second

/-- The assignments of the watcher's claim. -/
def JobRun.queue (now : Int) (r : JobRun) : JobRun := { r with status := .queued, updatedAt := now }

/-- The transaction of `claim_and_publish`; the result is the runs to publish, with the attributes
they were selected with. -/
def claimAndPublish (now : Int) (batchSize : Nat) : Txn (List JobRun) := do
  let runs ← Txn.lockRuns
    (fun r => r.status == .pending && decide (r.scheduledAt < now + lookahead)) batchSize
  if runs.isEmpty then
    return []
  let _ ← Txn.updateRuns (fun r => decide (r.runId ∈ runs.map (·.runId))) (JobRun.queue now)
  runs.forM fun r =>
    Txn.insertEvent (.new r.runId r.jobId .queued (some .pending) (some .queued) none)
  return runs

/-- An entry of `send_message_batch`. -/
structure Entry where
  runId : Nat
  jobId : Nat
  delaySeconds : Int
  deriving DecidableEq, Repr

/-- `max(0, int((run.scheduled_at - now).total_seconds()))`: `int` truncates towards zero. -/
def delaySeconds (now scheduledAt : Int) : Int := max 0 ((scheduledAt - now).tdiv second)

/-- The entries that `claim_and_publish` sends after its commit. -/
def entries (now : Int) (runs : List JobRun) : List Entry :=
  runs.map fun r => ⟨r.runId, r.jobId, delaySeconds now r.scheduledAt⟩

end TaskScheduler
