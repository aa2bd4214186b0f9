import TaskScheduler.Db.Alone
import TaskScheduler.System

/-! The processes around the database: the watchers, the workers and the reconcilers, the queue
between them, and a clock that they share.  A process takes one step at a time, a reading of the
clock, a transaction, or a call of the queue, and may crash between any two of them.  The queue
hands out an undeleted message at any time from its visibility on, to any number of workers, and may
lose or duplicate it; a delete removes it for good. -/

namespace TaskScheduler

/-- An undeleted message.  `visibleAt` is its send time plus `DelaySeconds`; `dead` says that it is
in the dead-letter queue. -/
structure Message where
  id : Nat
  runId : Nat
  jobId : Nat
  visibleAt : Int
  dead : Bool
  deriving DecidableEq, Repr

/-- The loops that are not driven by messages. -/
inductive Role
  | watcher
  | sweepA
  | sweepB
  | sweepC
  deriving DecidableEq, Repr

/-- Where a process stands: it has read the clock; it has committed and still has entries to send;
or it is a worker that has received a message, has claimed the run of it, or is about to delete
it. -/
inductive Proc
  | ready (role : Role) (now : Int)
  | sending (entries : List Entry)
  | received (m : Message)
  | working (m : Message)
  | deleting (m : Message)
  deriving DecidableEq, Repr

/-- `reconciler_dlq_grace_seconds`, `reconciler_queued_grace_seconds` and
`reconciler_running_grace_seconds`, and what the transactions are configured with. -/
structure Settings where
  cfg : Config
  dlqGrace : Int
  queuedGrace : Int
  runningGrace : Int

/-- The processes (`none` once ended), the messages that are not deleted, and the database. -/
structure Fleet where
  db : Db := {}
  clock : Int := 0
  nextMessage : Nat := 0
  messages : List Message := []
  procs : List (Option Proc) := []
  deriving DecidableEq, Repr

/-- The transactions of the API and of the continuation consumer. -/
def Kind.outside : Kind → Bool
  | .create _ _ | .poll _ _ | .cancel _ _ _ => true
  | _ => false

/-- The worker leaves the message to be delivered again. -/
def Outcome.retries : Outcome → Bool
  | .returned res => !res.ok && res.retryable
  | .raised _ => true
  | .invalid _ _ => false

/-- The steps.  `pick` is the planner's choice among the rows of a limited select; `arrives` says
which sends put a message into the queue, and `sent` which of them the caller takes to have gone
through. -/
inductive FleetAct
  | tick (d : Nat)
  | other (k : Kind) (pick : Nat → Bool)
  | begin_ (role : Role)
  | publish (i batchSize : Nat) (pick : Nat → Bool)
  | sweepA (i batchSize : Nat) (pick : Nat → Bool)
  | sweepB (i batchSize : Nat) (pick sent arrives : Nat → Bool) (commits : Bool)
  | sweepC (i batchSize : Nat) (pick : Nat → Bool)
  | send (i : Nat) (arrives : Bool)
  | receive (k : Nat)
  | claim (i : Nat)
  | heartbeat (i : Nat)
  | finish (i : Nat) (outcome : Outcome)
  | delete (i : Nat)
  | crash (i : Nat)
  | lose (k : Nat)
  | duplicate (k : Nat)
  | bury (k : Nat)

namespace Fleet

/-- A transaction that begins now; transactions do not overlap. -/
def alone {α : Type} (φ : Fleet) (pick : Nat → Bool) (t : Txn α) : Option (Except Err α × Db) :=
  φ.db.alone φ.clock pick t

def become (φ : Fleet) (i : Nat) (p : Option Proc) : Fleet := { φ with procs := φ.procs.set i p }

def launch (φ : Fleet) (p : Proc) : Fleet := { φ with procs := φ.procs ++ [some p] }

/-- The process `i`, if it has not ended. -/
def proc (φ : Fleet) (i : Nat) : Option Proc := φ.procs[i]?.join

/-- A message enters the queue. -/
def post (φ : Fleet) (e : Entry) : Fleet :=
  { φ with
    messages := φ.messages ++
      [⟨φ.nextMessage, e.runId, e.jobId, φ.clock + e.delaySeconds * second, false⟩]
    nextMessage := φ.nextMessage + 1 }

/-- An entry without delay, as the sweeps send it. -/
def entryNow (r : JobRun) : Entry := ⟨r.runId, r.jobId, 0⟩

/-- Process `i` runs transaction `t` and goes on as `next` says; an exception ends it. -/
def transact {α : Type} (φ : Fleet) (i : Nat) (pick : Nat → Bool) (t : Txn α)
    (next : α → Option Proc) : Option Fleet :=
  match φ.alone pick t with
  | none => none
  | some (.ok a, db) => some { φ.become i (next a) with db := db }
  | some (.error _, db) => some { φ.become i none with db := db }

/-- One step, where it is possible. -/
def step (set : Settings) (φ : Fleet) : FleetAct → Option Fleet
  | .tick d => some { φ with clock := φ.clock + d }
  | .other k pick =>
    if k.outside then (φ.alone pick (k.prog set.cfg)).map fun res => { φ with db := res.2 }
    else none
  | .begin_ role => some (φ.launch (.ready role φ.clock))
  | .publish i batchSize pick =>
    match φ.proc i with
    | some (.ready .watcher now) =>
      φ.transact i pick (claimAndPublish now batchSize) fun runs => some (.sending (entries now runs))
    | _ => none
  | .sweepA i batchSize pick =>
    match φ.proc i with
    | some (.ready .sweepA now) =>
      φ.transact i pick (sweepDlqRetrying now set.dlqGrace batchSize) fun _ => none
    | _ => none
  | .sweepB i batchSize pick sent arrives commits =>
    match φ.proc i with
    | some (.ready .sweepB now) =>
      match φ.alone pick (sweepQueuedStuck now φ.clock set.queuedGrace batchSize sent) with
      | some (.ok runs, db) =>
        let after := ((runs.filter fun r => arrives r.runId).map entryNow).foldl post (φ.become i none)
        some { after with db := if commits then db else φ.db }
      | some (.error _, db) => some { φ.become i none with db := db }
      | none => none
    | _ => none
  | .sweepC i batchSize pick =>
    match φ.proc i with
    | some (.ready .sweepC now) =>
      φ.transact i pick
        (sweepRunningOrphan set.cfg.registry now φ.clock set.runningGrace batchSize) fun runs =>
          some (.sending (runs.map entryNow))
    | _ => none
  | .send i arrives =>
    match φ.proc i with
    | some (.sending (e :: es)) =>
      let after := φ.become i (some (.sending es))
      some (if arrives then after.post e else after)
    | _ => none
  | .receive k =>
    match φ.messages[k]? with
    | some m => if !m.dead && decide (m.visibleAt ≤ φ.clock) then some (φ.launch (.received m)) else none
    | none => none
  | .claim i =>
    match φ.proc i with
    | some (.received m) =>
      φ.transact i (fun _ => true) (claimTxn φ.clock m.runId m.jobId) fun claimed =>
        if claimed then some (.working m) else some (.deleting m)
    | _ => none
  | .heartbeat i =>
    match φ.proc i with
    | some (.working m) =>
      φ.transact i (fun _ => true) (bumpHeartbeatAt φ.clock m.runId) fun _ => some (.working m)
    | _ => none
  | .finish i outcome =>
    match φ.proc i with
    | some (.working m) =>
      φ.transact i (fun _ => true) (finishTxn φ.clock m.runId m.jobId outcome) fun _ =>
        if outcome.retries then none else some (.deleting m)
    | _ => none
  | .delete i =>
    match φ.proc i with
    | some (.deleting m) =>
      some { φ.become i none with messages := φ.messages.filter fun x => x.id != m.id }
    | _ => none
  | .crash i => some (φ.become i none)
  | .lose k => some { φ with messages := φ.messages.eraseIdx k }
  | .duplicate k =>
    match φ.messages[k]? with
    | some m =>
      some { φ with
        messages := φ.messages ++ [{ m with id := φ.nextMessage }]
        nextMessage := φ.nextMessage + 1 }
    | none => none
  | .bury k =>
    some { φ with messages := φ.messages.modify k fun m => { m with dead := true } }

/-- The states that steps satisfying `ok` reach from an empty system. -/
inductive Reach (set : Settings) (ok : Fleet → FleetAct → Prop) : Fleet → Prop
  | init (clock : Int) : Reach set ok { clock := clock }
  | step {φ φ' : Fleet} {a : FleetAct} : Reach set ok φ → ok φ a → φ.step set a = some φ' →
    Reach set ok φ'

/-- A run of the listed steps, if each is possible. -/
def runActs (set : Settings) (φ : Fleet) : List FleetAct → Option Fleet
  | [] => some φ
  | a :: as => (φ.step set a).bind fun φ' => φ'.runActs set as

theorem Reach.runActs {set : Settings} {ok : Fleet → FleetAct → Prop} {φ φ' : Fleet}
    {as : List FleetAct} (hreach : Reach set ok φ) (hok : ∀ χ, ∀ a ∈ as, ok χ a)
    (h : φ.runActs set as = some φ') : Reach set ok φ' := by
  induction as generalizing φ with
  | nil =>
    cases h
    exact hreach
  | cons a as ih =>
    simp only [Fleet.runActs, Option.bind_eq_some_iff] at h
    obtain ⟨φ₁, hstep, hrest⟩ := h
    exact ih (hreach.step (hok φ a List.mem_cons_self) hstep)
      (fun χ b hb => hok χ b (List.mem_cons_of_mem _ hb)) hrest

end Fleet

end TaskScheduler
