import Mathlib.Data.List.Sort
import TaskScheduler.Db.Models
import TaskScheduler.Lib.Program

/-! Database sessions under READ COMMITTED.  A transaction is a program over the SQL statements
that the code issues.  An open session keeps its uncommitted writes, its locks, and the `Job`
entities that the ORM has loaded; every statement sees the committed tables with the session's own
writes on top, and waits for the row and advisory locks of the other sessions. -/

namespace TaskScheduler

open Lib

/-- The statements, one constructor for each form that the code issues.  Keys and the columns with
server defaults are filled in by the database, whatever the inserted row holds there. -/
inductive Stmt
  /-- A select of columns of `jobs`. -/
  | selectJobs (p : Job → Bool)
  /-- A select of `Job` entities: a row in the identity map keeps the attributes it was loaded
  with. -/
  | loadJobs (p : Job → Bool)
  /-- The recursive query over the trigger ancestors of a job, `limit` rows deep at most. -/
  | ancestors (start : Nat) (limit : Nat)
  | insertJob (row : Job)
  | updateJobs (p : Job → Bool) (set : Job → Job)
  | selectRuns (p : JobRun → Bool)
  /-- `SELECT ... FOR UPDATE SKIP LOCKED LIMIT`. -/
  | lockRuns (p : JobRun → Bool) (limit : Nat)
  | insertRun (row : JobRun)
  | updateRuns (p : JobRun → Bool) (set : JobRun → JobRun)
  /-- A select of events in `event_id` order. -/
  | selectEvents (p : RunEvent → Bool) (limit : Nat)
  | insertEvent (row : RunEvent)
  | updateEvents (p : RunEvent → Bool) (set : RunEvent → RunEvent)
  /-- `pg_advisory_xact_lock`. -/
  | advisoryLock (key : Nat)
  | savepoint
  | rollbackTo
  | release

/-- The answers.  An insert that breaks a constraint answers `none` (`IntegrityError`); an update
answers the keys of the rows it matched. -/
def Reply : Stmt → Type
  | .selectJobs _ => List Job
  | .loadJobs _ => List Job
  | .ancestors _ _ => Option Nat × Bool
  | .insertJob _ => Option Nat
  | .updateJobs _ _ => List Nat
  | .selectRuns _ => List JobRun
  | .lockRuns _ _ => List JobRun
  | .insertRun _ => Option Nat
  | .updateRuns _ _ => List Nat
  | .selectEvents _ _ => List RunEvent
  | .insertEvent _ => Nat
  | .updateEvents _ _ => List Nat
  | .advisoryLock _ => Unit
  | .savepoint => Unit
  | .rollbackTo => Unit
  | .release => Unit

/-- The walk of the recursive query from `job`, whose row has depth `depth` and the ids of `path`
as its path: the largest depth and whether some row closes a cycle.  A row that closes a cycle is
not extended. -/
def ancestorWalk (jobs : List Job) : Nat → Job → List Nat → Nat → Nat × Bool
  | 0, _, _, depth => (depth, false)
  | n + 1, job, path, depth =>
    match job.triggerOnJobId.bind fun p => jobs.find? fun j => j.jobId == p with
    | none => (depth, false)
    | some parent =>
      if parent.jobId ∈ path then (depth + 1, true)
      else ancestorWalk jobs n parent (path ++ [parent.jobId]) (depth + 1)

/-- The answer of the recursive query: `MAX(depth)`, null over no rows, and `bool_or(is_cycle)`. -/
def ancestorsOf (jobs : List Job) (start : Nat) (limit : Nat) : Option Nat × Bool :=
  match jobs.find? fun j => j.jobId == start with
  | none => (none, false)
  | some job =>
    let w := ancestorWalk jobs (limit - 1) job [job.jobId] 1
    (some w.1, w.2)

/-- The locks of a session. -/
structure Held where
  advisory : List Nat := []
  jobs : List Nat := []
  runs : List Nat := []
  events : List Nat := []

/-- An open session: its start (the value of `now()` in it), its uncommitted writes, its locks, its
identity map, and the writes and locks it had at its savepoint. -/
structure Session where
  start : Int
  writes : List Write := []
  held : Held := {}
  loaded : List Job := []
  saved : Option (List Write × Held) := none

namespace Session

/-- The tables as the session sees them. -/
def view (ses : Session) (committed : Tables) : Tables := Write.applyAll ses.writes committed

/-- The entity for a row: the loaded one if there is one. -/
def entity (ses : Session) (row : Job) : Job :=
  (ses.loaded.find? fun c => c.jobId == row.jobId).getD row

def isLoaded (ses : Session) (row : Job) : Bool := ses.loaded.any fun c => c.jobId == row.jobId

def locksRun (ses : Session) (id : Nat) : Bool := id ∈ ses.held.runs

/-- The session has an uncommitted run that clashes with `row`. -/
def insertsRunLike (ses : Session) (row : JobRun) : Bool :=
  ses.writes.any fun
    | .insertRun r => row.clashes r
    | _ => false

def insertsJobLike (ses : Session) (row : Job) : Bool :=
  ses.writes.any fun
    | .insertJob r => row.clashes r
    | _ => false

def write (ses : Session) (w : Write) : Session := { ses with writes := ses.writes ++ [w] }

end Session

namespace Stmt

/-- A statement of session `ses` among the open sessions `others`: its answer and the session after
it, or `none` while it waits for a lock.  `pick` is the planner's choice among the rows of a
limited select. -/
def exec (pick : Nat → Bool) (others : List Session) (committed : Tables) :
    (s : Stmt) → Seq × Session → Option (Reply s × Seq × Session)
  | .selectJobs p, (seq, ses) => some ((ses.view committed).jobs.filter p, seq, ses)
  | .loadJobs p, (seq, ses) =>
    let rows := (ses.view committed).jobs.filter p
    some (rows.map ses.entity, seq,
      { ses with loaded := ses.loaded ++ rows.filter fun r => !ses.isLoaded r })
  | .ancestors start limit, (seq, ses) =>
    some (ancestorsOf (ses.view committed).jobs start limit, seq, ses)
  | .insertJob row, (seq, ses) =>
    let row := { row with jobId := seq.jobs, createdAt := ses.start, updatedAt := ses.start }
    let seq := { seq with jobs := seq.jobs + 1 }
    if others.any (·.insertsJobLike row) then none
    else if (ses.view committed).jobs.any row.clashes || !row.scheduleConsistent then
      some (none, seq, ses)
    else some (some row.jobId, seq, ses.write (.insertJob row))
  | .updateJobs p set, (seq, ses) =>
    let ids := ((ses.view committed).jobs.filter p).map (·.jobId)
    if others.any fun o => ids.any (· ∈ o.held.jobs) then none
    else some (ids, seq,
      { ses.write (.updateJobs ids set) with
        held := { ses.held with jobs := ids ++ ses.held.jobs } })
  | .selectRuns p, (seq, ses) => some ((ses.view committed).runs.filter p, seq, ses)
  | .lockRuns p limit, (seq, ses) =>
    let rows := ((ses.view committed).runs.filter fun r =>
      p r && pick r.runId && !others.any (·.locksRun r.runId)).take limit
    some (rows, seq,
      { ses with held := { ses.held with runs := rows.map (·.runId) ++ ses.held.runs } })
  | .insertRun row, (seq, ses) =>
    let row := { row with runId := seq.runs, createdAt := ses.start, updatedAt := ses.start }
    let seq := { seq with runs := seq.runs + 1 }
    if others.any (·.insertsRunLike row) then none
    else if (ses.view committed).runs.any row.clashes then some (none, seq, ses)
    else some (some row.runId, seq, ses.write (.insertRun row))
  | .updateRuns p set, (seq, ses) =>
    let ids := ((ses.view committed).runs.filter p).map (·.runId)
    if others.any fun o => ids.any (· ∈ o.held.runs) then none
    else some (ids, seq,
      { ses.write (.updateRuns ids set) with
        held := { ses.held with runs := ids ++ ses.held.runs } })
  | .selectEvents p limit, (seq, ses) =>
    some ((((ses.view committed).events.filter p).insertionSort
      fun a b => a.eventId ≤ b.eventId).take limit, seq, ses)
  | .insertEvent row, (seq, ses) =>
    let row := { row with eventId := seq.events, occurredAt := ses.start, processedBy := [] }
    some (row.eventId, { seq with events := seq.events + 1 }, ses.write (.insertEvent row))
  | .updateEvents p set, (seq, ses) =>
    let ids := ((ses.view committed).events.filter p).map (·.eventId)
    if others.any fun o => ids.any (· ∈ o.held.events) then none
    else some (ids, seq,
      { ses.write (.updateEvents ids set) with
        held := { ses.held with events := ids ++ ses.held.events } })
  | .advisoryLock key, (seq, ses) =>
    if others.any fun o => key ∈ o.held.advisory then none
    else some ((), seq, { ses with held := { ses.held with advisory := key :: ses.held.advisory } })
  | .savepoint, (seq, ses) => some ((), seq, { ses with saved := some (ses.writes, ses.held) })
  | .rollbackTo, (seq, ses) =>
    match ses.saved with
    | none => some ((), seq, ses)
    | some (writes, held) => some ((), seq, { ses with writes, held, saved := none })
  | .release, (seq, ses) => some ((), seq, { ses with saved := none })

end Stmt

/-- The exceptions that end a transaction with a rollback. -/
inductive Err
  | unsupportedScheduleType (scheduleType : String)
  | unknownAction (action : String)
  | operatorOnlyAction (action : String)
  | valueError (triggerOnStatus : String)
  | chainRunSource
  | invalidCronExpr (hint : String)
  | invalidTimezone (timezone : String)
  | invalidScheduledAt (text : String)
  | chainJobNotFound (jobId : Nat)
  | chainJobTerminated (jobId : Nat)
  | chainCycle (jobId : Nat)
  | chainDepth (jobId : Nat)
  | jobNotFound (jobId : Nat)
  | invalidState (hint : RunStatus)
  | concurrency
  | integrity
  | noResultFound
  | zoneInfoNotFound
  | badDate
  | overflow
  | recursion
  deriving DecidableEq, Repr

/-- A transaction: the statements between `BEGIN` and `COMMIT`. -/
abbrev Txn := Program Stmt Reply Err

namespace Txn

def raise {α : Type} (e : Err) : Txn α := Program.raise e

def selectJobs (p : Job → Bool) : Txn (List Job) := .op (.selectJobs p) .ret

def loadJobs (p : Job → Bool) : Txn (List Job) := .op (.loadJobs p) .ret

def ancestors (start limit : Nat) : Txn (Option Nat × Bool) := .op (.ancestors start limit) .ret

def insertJob (row : Job) : Txn (Option Nat) := .op (.insertJob row) .ret

def updateJobs (p : Job → Bool) (set : Job → Job) : Txn (List Nat) := .op (.updateJobs p set) .ret

def selectRuns (p : JobRun → Bool) : Txn (List JobRun) := .op (.selectRuns p) .ret

def lockRuns (p : JobRun → Bool) (limit : Nat) : Txn (List JobRun) := .op (.lockRuns p limit) .ret

def insertRun (row : JobRun) : Txn (Option Nat) := .op (.insertRun row) .ret

def updateRuns (p : JobRun → Bool) (set : JobRun → JobRun) : Txn (List Nat) :=
  .op (.updateRuns p set) .ret

def selectEvents (p : RunEvent → Bool) (limit : Nat) : Txn (List RunEvent) :=
  .op (.selectEvents p limit) .ret

def insertEvent (row : RunEvent) : Txn Unit := .op (.insertEvent row) fun _ => .ret ()

def updateEvents (p : RunEvent → Bool) (set : RunEvent → RunEvent) : Txn Unit :=
  .op (.updateEvents p set) fun _ => .ret ()

def advisoryLock (key : Nat) : Txn Unit := .op (.advisoryLock key) .ret

def savepoint : Txn Unit := .op .savepoint .ret

def rollbackTo : Txn Unit := .op .rollbackTo .ret

def release : Txn Unit := .op .release .ret

end Txn

/-- The row of a `RunEvent` as the writers build it; the database fills in the rest. -/
def RunEvent.new (runId jobId : Nat) (eventType : EventType) (statusFrom statusTo : Option RunStatus)
    (eventData : Option EventData) : RunEvent where
  eventId := 0
  runId := runId
  jobId := jobId
  eventType := eventType
  statusFrom := statusFrom
  statusTo := statusTo
  eventData := eventData
  occurredAt := 0
  processedBy := []

end TaskScheduler
