/-! The three core tables of `app/db/models.py`: the mutable job definitions, one row per run, and
the append-only outbox of run events, with the unique indexes that the run tables rely on.  Keys
are natural numbers, and an instant is an integer: microseconds since the epoch, the resolution of
the `timestamptz` columns. -/

namespace TaskScheduler

inductive JobType
  | oneShot
  | recurring
  deriving DecidableEq, Repr

/-- `Job.state`: the lifecycle of a job. -/
inductive JobState
  | active
  | completed
  | cancelled
  deriving DecidableEq, Repr

/-- `Job.trigger_on_status`. -/
inductive TriggerStatus
  | succeeded
  | failed
  | any
  deriving DecidableEq, Repr

/-- `JobRun.status`. -/
inductive RunStatus
  | pending
  | queued
  | running
  | retrying
  | succeeded
  | failed
  | cancelled
  deriving DecidableEq, Repr

/-- `RunEvent.event_type`. -/
inductive EventType
  | created
  | queued
  | started
  | succeeded
  | failed
  | retry
  | cancelled
  | reenqueued
  | chainSkippedPredicateMiss
  | chainSkippedSlowConsumer
  deriving DecidableEq, Repr

/-- `RunEvent.event_data`, by the shapes that the writers give it. -/
inductive EventData
  | result (json : String)
  | error (text : String)
  | dlqReconcile (lastSeenAt : Int)
  | watcherSendFailed
  | runningOrphan (lastHeartbeatAt : Option Int)
  | predicateMiss (downstreamJobId : Nat) (triggerOnStatus : Option TriggerStatus)
      (upstreamStatus : EventType)
  | slowConsumer (downstreamJobId : Nat) (upstreamStatus : EventType)
  deriving DecidableEq, Repr

structure Job where
  jobId : Nat
  userId : String
  action : String
  jobType : JobType
  scheduledAt : Option Int
  cronExpr : Option String
  timezone : String
  cancelledAt : Option Int
  triggerOnJobId : Option Nat
  triggerOnStatus : Option TriggerStatus
  idempotencyKey : Option String
  state : JobState
  createdAt : Int
  updatedAt : Int
  deriving DecidableEq, Repr

structure JobRun where
  runId : Nat
  jobId : Nat
  userId : String
  scheduledAt : Int
  status : RunStatus
  result : Option String
  errorMessage : Option String
  errorCode : Option String
  waitForRunId : Option Nat
  startAt : Option Int
  finishAt : Option Int
  heartbeatAt : Option Int
  createdAt : Int
  updatedAt : Int
  deriving DecidableEq, Repr

structure RunEvent where
  eventId : Nat
  runId : Nat
  jobId : Nat
  eventType : EventType
  statusFrom : Option RunStatus
  statusTo : Option RunStatus
  eventData : Option EventData
  occurredAt : Int
  processedBy : List (String × Int)
  deriving DecidableEq, Repr

/-- `_EXECUTING`: the statuses of resident load. -/
def RunStatus.executing : RunStatus → Bool
  | .pending | .queued | .running | .retrying => true
  | .succeeded | .failed | .cancelled => false

/-- `_CANCELLABLE_STATUSES`: the statuses that a cancel flips. -/
def RunStatus.cancellable : RunStatus → Bool
  | .pending | .queued | .retrying => true
  | _ => false

/-- The statuses that no transition leaves. -/
def RunStatus.terminal : RunStatus → Bool
  | .succeeded | .failed | .cancelled => true
  | _ => false

/-- `TERMINAL_EVENTS`. -/
def EventType.terminal : EventType → Bool
  | .succeeded | .failed | .cancelled => true
  | _ => false

theorem RunStatus.executing_eq_not_terminal (s : RunStatus) : s.executing = !s.terminal := by
  cases s <;> rfl

theorem RunStatus.executing_of_cancellable {s : RunStatus} (h : s.cancellable = true) :
    s.executing = true := by
  cases s <;> first | rfl | cases h

/-- `ck_jobs_schedule_consistency`. -/
def Job.scheduleConsistent (j : Job) : Bool :=
  match j.jobType with
  | .oneShot => j.scheduledAt.isSome && j.cronExpr.isNone
  | .recurring => j.cronExpr.isSome

/-- `uq_jobs_user_idempotency`: two rows that may not both be in the table. -/
def Job.clashes (a b : Job) : Bool :=
  a.userId == b.userId && a.idempotencyKey.isSome && a.idempotencyKey == b.idempotencyKey

/-- The unique indexes of `job_runs`: two rows that may not both be in the table, by the live
schedule tick, by the trigger cause, or by the schedule tick. -/
def JobRun.clashes (a b : JobRun) : Bool :=
  a.jobId == b.jobId &&
    ((a.scheduledAt == b.scheduledAt && a.status.executing && b.status.executing) ||
      (a.waitForRunId.isSome && a.waitForRunId == b.waitForRunId) ||
      (a.waitForRunId.isNone && b.waitForRunId.isNone && a.scheduledAt == b.scheduledAt))

/-- `processed_by ? key`. -/
def RunEvent.hasKey (e : RunEvent) (key : String) : Bool :=
  e.processedBy.any fun kv => kv.1 == key

structure Tables where
  jobs : List Job := []
  runs : List JobRun := []
  events : List RunEvent := []
  deriving DecidableEq, Repr

/-- The sequences behind the autoincrement keys; they are not transactional. -/
structure Seq where
  jobs : Nat := 1
  runs : Nat := 1
  events : Nat := 1
  deriving DecidableEq, Repr

/-- One change to the tables.  An update names the rows that its `WHERE` matched. -/
inductive Write
  | insertJob (row : Job)
  | updateJobs (ids : List Nat) (set : Job → Job)
  | insertRun (row : JobRun)
  | updateRuns (ids : List Nat) (set : JobRun → JobRun)
  | insertEvent (row : RunEvent)
  | updateEvents (ids : List Nat) (set : RunEvent → RunEvent)

namespace Write

def apply : Write → Tables → Tables
  | .insertJob row, t => { t with jobs := t.jobs ++ [row] }
  | .updateJobs ids set, t =>
    { t with jobs := t.jobs.map fun j => if j.jobId ∈ ids then set j else j }
  | .insertRun row, t => { t with runs := t.runs ++ [row] }
  | .updateRuns ids set, t =>
    { t with runs := t.runs.map fun r => if r.runId ∈ ids then set r else r }
  | .insertEvent row, t => { t with events := t.events ++ [row] }
  | .updateEvents ids set, t =>
    { t with events := t.events.map fun e => if e.eventId ∈ ids then set e else e }

/-- The tables after the writes, in order. -/
def applyAll (ws : List Write) (t : Tables) : Tables := ws.foldl (fun t w => w.apply t) t

@[simp] theorem applyAll_nil (t : Tables) : applyAll [] t = t := rfl

@[simp] theorem applyAll_append (ws vs : List Write) (t : Tables) :
    applyAll (ws ++ vs) t = applyAll vs (applyAll ws t) := by
  simp [applyAll, List.foldl_append]

@[simp] theorem applyAll_singleton (w : Write) (t : Tables) : applyAll [w] t = w.apply t := rfl

end Write

end TaskScheduler
