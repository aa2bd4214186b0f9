import TaskScheduler.Db.Session

/-! The rules for chaining a new job, `app/domain/chain_validation.py`. -/

namespace TaskScheduler

def maxChainDepth : Nat := 10

/-- `validate_run_source` (V6): a job declares a cron expression or a trigger, not both. -/
def validateRunSource (triggerOnJobId : Option Nat) (cronExpr : Option String) : Except Err Unit :=
  if triggerOnJobId.isSome && (cronExpr.getD "") != "" then .error .chainRunSource else .ok ()

/-- `validate_chain` (V1 to V5): the trigger exists, belongs to the user and is active, and its
ancestors close no cycle and leave room for one more job. -/
def validateChain (userId : String) (triggerOnJobId : Nat) : Txn Unit := do
  match (← Txn.loadJobs fun j => j.jobId == triggerOnJobId).head? with
  | none => Txn.raise (.chainJobNotFound triggerOnJobId)
  | some triggerJob =>
    if triggerJob.userId != userId then
      Txn.raise (.chainJobNotFound triggerOnJobId)
    else if triggerJob.state != .active then
      Txn.raise (.chainJobTerminated triggerOnJobId)
    else
      let row ← Txn.ancestors triggerOnJobId (maxChainDepth + 2)
      if row.2 then
        Txn.raise (.chainCycle triggerOnJobId)
      else if row.1.getD 0 ≥ maxChainDepth then
        Txn.raise (.chainDepth triggerOnJobId)
      else return ()

end TaskScheduler
