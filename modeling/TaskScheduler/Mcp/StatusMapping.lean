import TaskScheduler.Db.Models

/-! The mapping between the statuses of the tables and those of the interface,
`app/mcp/status_mapping.py`. -/

namespace TaskScheduler

/-- The external statuses. -/
inductive ExternalStatus
  | scheduled
  | running
  | completed
  | failed
  | cancelled
  deriving DecidableEq, Repr

/-- `_VALID_EXTERNAL_STATUSES`, in the order in which an error lists them. -/
def ExternalStatus.values : List (String × ExternalStatus) :=
  [("cancelled", .cancelled), ("completed", .completed), ("failed", .failed), ("running", .running),
    ("scheduled", .scheduled)]

def ExternalStatus.parse (s : String) : Option ExternalStatus :=
  (ExternalStatus.values.find? fun x => x.1 == s).map (·.2)

def ExternalStatus.text : ExternalStatus → String
  | .scheduled => "scheduled"
  | .running => "running"
  | .completed => "completed"
  | .failed => "failed"
  | .cancelled => "cancelled"

theorem ExternalStatus.parse_text (s : ExternalStatus) : ExternalStatus.parse s.text = some s := by
  cases s <;> decide

/-- `to_external`. -/
def toExternal : RunStatus → ExternalStatus
  | .pending => .scheduled
  | .queued => .scheduled
  | .running => .running
  | .retrying => .running
  | .succeeded => .completed
  | .failed => .failed
  | .cancelled => .cancelled

/-- `to_internal_set`. -/
def toInternalSet : ExternalStatus → List RunStatus
  | .scheduled => [.pending, .queued]
  | .running => [.running, .retrying]
  | .completed => [.succeeded]
  | .failed => [.failed]
  | .cancelled => [.cancelled]

/-- `_JOB_STATE_MAPPING`. -/
def jobStateMapping : JobState → ExternalStatus
  | .active => .scheduled
  | .completed => .completed
  | .cancelled => .cancelled

/-- `to_job_states`. -/
def toJobStates (s : ExternalStatus) : List JobState :=
  [JobState.active, .completed, .cancelled].filter fun state => jobStateMapping state == s

/-- `to_external_job_status`. -/
def toExternalJobStatus (jobState : JobState) (latestRunStatus : Option RunStatus) :
    ExternalStatus :=
  match latestRunStatus with
  | some status => toExternal status
  | none => jobStateMapping jobState

/-- The two directions of the mapping agree. -/
theorem mem_toInternalSet {status : RunStatus} {s : ExternalStatus} :
    status ∈ toInternalSet s ↔ toExternal status = s := by
  cases s <;> cases status <;> decide

theorem mem_toJobStates {state : JobState} {s : ExternalStatus} :
    state ∈ toJobStates s ↔ jobStateMapping state = s := by
  cases s <;> cases state <;> decide

end TaskScheduler
