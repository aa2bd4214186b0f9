import TaskScheduler.Db.Account
import TaskScheduler.Workers.Reconciler
import TaskScheduler.Workers.RecurringWatcher

/-! The scheduler as a whole: the transactions of its processes over one database, run at once or
interleaved statement by statement, and the workers that execute claimed runs. -/

namespace TaskScheduler

open Lib

/-- What the processes are configured with; `depth` is the interpreter's recursion limit. -/
structure Config where
  libs : Libs
  registry : String → Option ActionHandler
  depth : Nat

/-- The transactions of the processes. -/
inductive Kind
  | create (now : Int) (args : CreateArgs)
  | publish (now : Int) (batchSize : Nat)
  | claim (now : Int) (runId jobId : Nat)
  | finish (now : Int) (runId jobId : Nat) (outcome : Outcome)
  | heartbeat (now : Int) (runId : Nat)
  | sweepA (now grace : Int) (batchSize : Nat)
  | sweepB (now now' grace : Int) (batchSize : Nat) (sent : Nat → Bool)
  | sweepC (now now' grace : Int) (batchSize : Nat)
  | poll (now : Int) (batchSize : Nat)
  /-- The body of the consumer for an event that it has read before. -/
  | deliver (now : Int) (event : RunEvent)
  | cancel (now : Int) (userId : String) (jobId : Nat)

/-- A transaction whose result says nothing about workers. -/
def Txn.quiet {α : Type} (t : Txn α) : Txn Bool := do
  let _ ← t
  return false

/-- The program of a transaction; its result is whether a claim has won. -/
def Kind.prog (cfg : Config) : Kind → Txn Bool
  | .create now args => (createJob cfg.libs now args).quiet
  | .publish now batchSize => (claimAndPublish now batchSize).quiet
  | .claim now runId jobId => claimTxn now runId jobId
  | .finish now runId jobId outcome => (finishTxn now runId jobId outcome).quiet
  | .heartbeat now runId => (bumpHeartbeatAt now runId).quiet
  | .sweepA now grace batchSize => (sweepDlqRetrying now grace batchSize).quiet
  | .sweepB now now' grace batchSize sent => (sweepQueuedStuck now now' grace batchSize sent).quiet
  | .sweepC now now' grace batchSize =>
    (sweepRunningOrphan cfg.registry now now' grace batchSize).quiet
  | .poll now batchSize => (pollOnce cfg.libs now cfg.depth batchSize).quiet
  | .deliver now event => (processEvent cfg.libs now cfg.depth event).quiet
  | .cancel now userId jobId => (cancelJob now cfg.depth userId jobId).quiet

/-- An open transaction: what is left of its program, and its session. -/
structure Open where
  kind : Kind
  prog : Txn Bool
  ses : Session

/-- The state of the system: the committed tables, the sequences, the transactions that were begun
(`none` once ended), and the live workers, each with the run and the job of its message. -/
structure Sys where
  tables : Tables := {}
  seq : Seq := {}
  sessions : List (Option Open) := []
  workers : List (Nat × Nat) := []

namespace Kind

/-- When a process issues the transaction: a message names a run and its job, the write after an
action and the heartbeat are those of a live worker, and a delivery is of a terminal event as it
was read. -/
def enabled (σ : Sys) : Kind → Bool
  | .claim _ runId jobId => σ.tables.runs.any fun r => r.runId == runId && r.jobId == jobId
  | .finish _ runId jobId _ => decide ((runId, jobId) ∈ σ.workers)
  | .heartbeat _ runId => σ.workers.any fun w => w.1 == runId
  | .deliver _ event =>
    event.eventType.terminal &&
      σ.tables.events.any fun e => decide ({ e with processedBy := event.processedBy } = event)
  | _ => true

/-- The workers once the transaction has begun: one that writes is done with its run. -/
def taken : Kind → List (Nat × Nat) → List (Nat × Nat)
  | .finish _ runId jobId _, ws => ws.erase (runId, jobId)
  | _, ws => ws

/-- The workers once it has committed: a claim that has won is a new live worker. -/
def done (won : Bool) : Kind → List (Nat × Nat) → List (Nat × Nat)
  | .claim _ runId jobId, ws => if won then (runId, jobId) :: ws else ws
  | _, ws => ws

end Kind

/-- The steps: a transaction at once, one that is begun, its next statement, its end, and the crash
of a live worker. -/
inductive Act
  | atomic (k : Kind) (start : Int) (pick : Nat → Bool)
  | start (k : Kind) (at_ : Int)
  | statement (i : Nat) (pick : Nat → Bool)
  | commit (i : Nat)
  | abort (i : Nat)
  | crash (runId jobId : Nat)

namespace Sys

/-- The sessions of the open transactions. -/
def open_ (σ : Sys) : List Session := σ.sessions.filterMap fun o => o.map (·.ses)

/-- The sessions of the open transactions other than `i`. -/
def others (σ : Sys) (i : Nat) : List Session :=
  (σ.sessions.eraseIdx i).filterMap fun o => o.map (·.ses)

/-- One step.  A transaction that raises is rolled back; only its use of the sequences stays. -/
def step (cfg : Config) (σ : Sys) : Act → Option Sys
  | .atomic k start pick =>
    if k.enabled σ then
      match (k.prog cfg).run (Stmt.exec pick σ.open_ σ.tables) (σ.seq, { start }) with
      | none => none
      | some (.ok won, seq, ses) =>
        some { σ with
          tables := ses.view σ.tables, seq := seq, workers := k.done won (k.taken σ.workers) }
      | some (.error _, seq, _) => some { σ with seq := seq, workers := k.taken σ.workers }
    else none
  | .start k at_ =>
    if k.enabled σ then
      some { σ with
        sessions := σ.sessions ++ [some ⟨k, k.prog cfg, { start := at_ }⟩]
        workers := k.taken σ.workers }
    else none
  | .statement i pick =>
    match σ.sessions[i]? with
    | some (some ⟨k, .op s rest, ses⟩) =>
      match s.exec pick (σ.others i) σ.tables (σ.seq, ses) with
      | none => none
      | some (r, seq, ses) =>
        some { σ with seq := seq, sessions := σ.sessions.set i (some ⟨k, rest r, ses⟩) }
    | _ => none
  | .commit i =>
    match σ.sessions[i]? with
    | some (some ⟨k, .ret won, ses⟩) =>
      some { σ with
        tables := ses.view σ.tables
        sessions := σ.sessions.set i none
        workers := k.done won σ.workers }
    | _ => none
  | .abort i =>
    match σ.sessions[i]? with
    | some (some _) => some { σ with sessions := σ.sessions.set i none }
    | _ => none
  | .crash runId jobId => some { σ with workers := σ.workers.erase (runId, jobId) }

/-- The states that steps satisfying `ok` reach from an empty database. -/
inductive Reach (cfg : Config) (ok : Sys → Act → Prop) : Sys → Prop
  | init : Reach cfg ok {}
  | step {σ σ' : Sys} {a : Act} : Reach cfg ok σ → ok σ a → σ.step cfg a = some σ' →
    Reach cfg ok σ'

/-- The states that steps satisfying `ok` reach from `σ`. -/
inductive Steps (cfg : Config) (ok : Sys → Act → Prop) (σ : Sys) : Sys → Prop
  | refl : Steps cfg ok σ σ
  | step {σ₁ σ₂ : Sys} {a : Act} : Steps cfg ok σ σ₁ → ok σ₁ a → σ₁.step cfg a = some σ₂ →
    Steps cfg ok σ σ₂

/-- An invariant of the steps that satisfy `ok` holds in every state that they reach. -/
theorem Reach.invariant {cfg : Config} {ok : Sys → Act → Prop} {I : Sys → Prop} (init : I {})
    (step : ∀ σ a σ', I σ → ok σ a → σ.step cfg a = some σ' → I σ') {σ : Sys}
    (h : Reach cfg ok σ) : I σ := by
  induction h with
  | init => exact init
  | step _ hok hstep ih => exact step _ _ _ ih hok hstep

theorem Reach.mono {cfg : Config} {ok ok' : Sys → Act → Prop} (hok : ∀ σ a, ok σ a → ok' σ a)
    {σ : Sys} (h : Reach cfg ok σ) : Reach cfg ok' σ := by
  induction h with
  | init => exact .init
  | step _ h hstep ih => exact .step ih (hok _ _ h) hstep

/-- A run of the listed steps, if each is possible. -/
def runActs (cfg : Config) (σ : Sys) : List Act → Option Sys
  | [] => some σ
  | a :: as => (σ.step cfg a).bind fun σ' => σ'.runActs cfg as

/-- A run of steps that are possible and satisfy `ok` reaches its last state. -/
theorem Reach.runActs {cfg : Config} {ok : Sys → Act → Prop} {σ σ' : Sys} {as : List Act}
    (hreach : Reach cfg ok σ) (hok : ∀ τ, ∀ a ∈ as, ok τ a) (h : σ.runActs cfg as = some σ') :
    Reach cfg ok σ' := by
  induction as generalizing σ with
  | nil =>
    cases h
    exact hreach
  | cons a as ih =>
    simp only [Sys.runActs, Option.bind_eq_some_iff] at h
    obtain ⟨σ₁, hstep, hrest⟩ := h
    exact ih (hreach.step (hok σ a List.mem_cons_self) hstep)
      (fun τ b hb => hok τ b (List.mem_cons_of_mem _ hb)) hrest

/-- The same for a run that goes on from a state. -/
theorem Steps.runActs {cfg : Config} {ok : Sys → Act → Prop} {σ₀ σ σ' : Sys} {as : List Act}
    (hsteps : Steps cfg ok σ₀ σ) (hok : ∀ τ, ∀ a ∈ as, ok τ a) (h : σ.runActs cfg as = some σ') :
    Steps cfg ok σ₀ σ' := by
  induction as generalizing σ with
  | nil =>
    cases h
    exact hsteps
  | cons a as ih =>
    simp only [Sys.runActs, Option.bind_eq_some_iff] at h
    obtain ⟨σ₁, hstep, hrest⟩ := h
    exact ih (hsteps.step (hok σ a List.mem_cons_self) hstep)
      (fun τ b hb => hok τ b (List.mem_cons_of_mem _ hb)) hrest

end Sys

/-! ### Concrete runs -/

/-- A configuration whose schedules fire on every minute. -/
def Config.minutely : Config where
  libs :=
    { zoneInfo := fun _ => true
      isValid := fun _ => true
      getNext := fun _ _ start => some ((start / (60 * second) + 1) * (60 * second))
      fromIsoFormat := fun _ _ => none }
  registry := actionRegistry
  depth := 1000

/-- The creation of an `echo` job: immediate, or recurring with a schedule, or chained. -/
def CreateArgs.echo (cronExpr : Option String) (triggerOnJobId : Option Nat)
    (triggerOnStatus : Option String) : CreateArgs where
  userId := "alice"
  action := "echo"
  scheduleType := if cronExpr.isSome then "recurring" else "immediate"
  idempotencyKey := none
  scheduledAt := none
  timezone := none
  cronExpr := cronExpr
  tzHeader := none
  tzEnv := none
  triggerOnJobId := triggerOnJobId
  triggerOnStatus := triggerOnStatus
  operatorUserId := none

/-- A transaction at once, at its own clock reading, that takes every row. -/
def Act.at (now : Int) (k : Kind) : Act := .atomic k now fun _ => true

/-- The outcome of an action that succeeds. -/
def Outcome.success : Outcome := .returned ⟨true, false, none, none, none⟩

end TaskScheduler
