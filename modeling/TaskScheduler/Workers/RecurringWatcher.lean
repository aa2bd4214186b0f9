import TaskScheduler.Domain.Jobs

/-! The continuation consumer, `app/workers/recurring_watcher.py`: for each terminal event it creates
the next run of a recurring job and the runs of the chained jobs, settles jobs, and stamps the
event. -/

namespace TaskScheduler

/-- `PROCESSED_BY_KEY`. -/
def processedByKey : String := "continuation"

/-- `_triggers_on`. -/
def triggersOn (triggerOnStatus : Option TriggerStatus) (eventType : EventType) : Bool :=
  match triggerOnStatus.getD .succeeded with
  | .any => true
  | .succeeded => eventType == .succeeded
  | .failed => eventType == .failed

/-- `session.begin_nested()`: a savepoint that an exception of the body rolls back to. -/
def beginNested (body : Txn (Except SpawnError Nat)) : Txn (Except SpawnError Nat) := do
  Txn.savepoint
  match ← body with
  | .ok runId =>
    Txn.release
    return .ok runId
  | .error e =>
    Txn.rollbackTo
    return .error e

/-- `_materialize_recurring_successor`: a cancelled job gets no successor; a job that already
executes and a tick that already exists are skipped. -/
def materializeRecurringSuccessor (libs : Libs) (event : RunEvent) (upstreamJob : Job)
    (cronExpr : String) : Txn Unit := do
  if upstreamJob.cancelledAt.isSome then
    return ()
  match ← Txn.selectRuns fun r => r.runId == event.runId && r.jobId == upstreamJob.jobId with
  | [prevRun] =>
    let _ ← beginNested (materializeSuccessor libs upstreamJob cronExpr prevRun event.occurredAt)
  | _ => Txn.raise .noResultFound

/-- One iteration of `_materialize_downstreams`. -/
def materializeOne (event : RunEvent) (downstream : Job) : Txn Unit := do
  if !triggersOn downstream.triggerOnStatus event.eventType then
    Txn.insertEvent (.new event.runId event.jobId .chainSkippedPredicateMiss none none
      (some (.predicateMiss downstream.jobId downstream.triggerOnStatus event.eventType)))
  else
    match ← beginNested (materializeDownstream downstream event.runId event.occurredAt) with
    | .error .concurrency =>
      Txn.insertEvent (.new event.runId event.jobId .chainSkippedSlowConsumer none none
        (some (.slowConsumer downstream.jobId event.eventType)))
    | _ => return ()

/-- `_materialize_downstreams`; the result is the active downstreams. -/
def materializeDownstreams (event : RunEvent) : Txn (List Job) := do
  let downstreams ← Txn.loadJobs fun j =>
    j.triggerOnJobId == some event.jobId && j.state == .active
  downstreams.forM (materializeOne event)
  return downstreams

/-- Part (a) of the body of `poll_once`: the recurring successor, for a recurring job. -/
def continueRecurring (libs : Libs) (event : RunEvent) (upstreamJob : Option Job) : Txn Unit :=
  match upstreamJob with
  | none => return ()
  | some job =>
    match job.cronExpr with
    | none => return ()
    | some cronExpr => materializeRecurringSuccessor libs event job cronExpr

/-- Part (b): the downstreams, unless the upstream job is cancelled. -/
def continueChain (event : RunEvent) (upstreamJob : Option Job) : Txn (List Job) :=
  if upstreamJob.any fun j => j.state == .cancelled then return []
  else materializeDownstreams event

/-- `new_pb = dict(event.processed_by)` with the consumer's key set. -/
def RunEvent.stampedBy (now : Int) (event : RunEvent) : List (String × Int) :=
  event.processedBy.filter (fun kv => kv.1 != processedByKey) ++ [(processedByKey, now)]

/-- The body of `poll_once` for one event. -/
def processEvent (libs : Libs) (now : Int) (depth : Nat) (event : RunEvent) : Txn Unit := do
  let rows ← Txn.loadJobs fun j => j.jobId == event.jobId
  continueRecurring libs event rows.head?
  let downstreams ← continueChain event rows.head?
  let _ ← settleCheck now depth event.jobId
  downstreams.forM fun d => do
    let _ ← settleCheck now depth d.jobId
  Txn.updateEvents (fun e => e.eventId == event.eventId)
    (fun e => { e with processedBy := event.stampedBy now })

/-- The events that `poll_once` selects. -/
def RunEvent.unprocessed (e : RunEvent) : Bool := e.eventType.terminal && !e.hasKey processedByKey

/-- `poll_once`. -/
def pollOnce (libs : Libs) (now : Int) (depth batchSize : Nat) : Txn Nat := do
  let events ← Txn.selectEvents RunEvent.unprocessed batchSize
  events.forM (processEvent libs now depth)
  return events.length

end TaskScheduler
