import TaskScheduler.Ledger.Change
import TaskScheduler.Lib.Issues
import TaskScheduler.System

/-! What the statements of each transaction do to the runs: which updates it issues, that every
run that it inserts is new, that the consumer updates none, and that the watcher and the sweeps
update only runs that they have locked. -/

namespace TaskScheduler

open Lib

/-- A statement that inserts only new runs, if `I` allows it, and updates runs only as `U` allows. -/
def Stmt.Runs (I : Prop) (U : (JobRun → Bool) → (JobRun → JobRun) → Prop) : Stmt → Prop
  | .updateRuns p set => U p set
  | .insertRun row => I ∧ ∃ job runAt wait, row = .new job runAt .pending wait
  | _ => True

/-- A statement of the consumer: it inserts new runs, if `I` allows it, but locks and updates none,
and it records no end of a run. -/
def Stmt.Continues (I : Prop) : Stmt → Prop
  | .lockRuns _ _ | .updateRuns _ _ => False
  | .insertRun row => I ∧ ∃ job runAt wait, row = .new job runAt .pending wait
  | .insertEvent row => row.eventType.terminal = false
  | _ => True

theorem Stmt.Continues.runs {I : Prop} {U : (JobRun → Bool) → (JobRun → JobRun) → Prop} {s : Stmt}
    (h : s.Continues I) : s.Runs I U := by
  cases s with
  | updateRuns p set => exact h.elim
  | insertRun row => exact h
  | _ => trivial

/-- The assignments of the write that follows the work on a run. -/
def Outcome.write (now : Int) : Outcome → JobRun → JobRun
  | .returned res =>
    if res.ok then JobRun.finish now .succeeded res
    else if !res.retryable then JobRun.finish now .failed res
    else JobRun.retry now (if res.error.getD "" = "" then "retryable failure" else res.error.getD "")
  | .raised message => JobRun.retry now message
  | .invalid message _ => JobRun.fail now message

/-- The status that the write after an action gives to its run. -/
def Outcome.status : Outcome → RunStatus
  | .returned res => if res.ok then .succeeded else if res.retryable then .retrying else .failed
  | .raised _ => .retrying
  | .invalid _ _ => .failed

/-- The updates of runs that a transaction issues. -/
inductive Kind.Updates : Kind → (JobRun → Bool) → (JobRun → JobRun) → Prop
  | publish {now : Int} {n : Nat} {p : JobRun → Bool} :
    Updates (.publish now n) p (JobRun.queue now)
  | claim {now : Int} {runId jobId : Nat} :
    Updates (.claim now runId jobId) (fun r => r.runId == runId && r.status.claimable)
      (JobRun.start now)
  | finish {now : Int} {runId jobId : Nat} {outcome : Outcome} :
    Updates (.finish now runId jobId outcome) (fun r => r.runId == runId) (outcome.write now)
  | heartbeat {now : Int} {runId : Nat} :
    Updates (.heartbeat now runId) (fun r => r.runId == runId)
      fun r => { r with heartbeatAt := some now }
  | sweepA {now grace : Int} {n : Nat} {p : JobRun → Bool} :
    Updates (.sweepA now grace n) p (JobRun.fail now "exceeded_max_receive (likely DLQ)")
  | sweepB {now now' grace : Int} {n : Nat} {sent : Nat → Bool} {p : JobRun → Bool} :
    Updates (.sweepB now now' grace n sent) p fun r => { r with updatedAt := now' }
  | reset {now now' grace : Int} {n : Nat} {p : JobRun → Bool} :
    Updates (.sweepC now now' grace n) p (JobRun.queue now')
  | orphan {now now' grace : Int} {n : Nat} {p : JobRun → Bool} :
    Updates (.sweepC now now' grace n) p (JobRun.fail now' runningOrphanMessage)
  | cancel {now : Int} {userId : String} {jobId : Nat} {p : JobRun → Bool} :
    Updates (.cancel now userId jobId) p JobRun.flip

theorem Outcome.write_sameRun (now : Int) (outcome : Outcome) (r : JobRun) :
    r.SameRun (outcome.write now r) := by
  cases outcome with
  | returned res =>
    simp only [Outcome.write]
    split
    · exact ⟨rfl, rfl, rfl, rfl, rfl⟩
    · split <;> exact ⟨rfl, rfl, rfl, rfl, rfl⟩
  | raised message | invalid message eventData => exact ⟨rfl, rfl, rfl, rfl, rfl⟩

theorem Outcome.write_status (now : Int) (outcome : Outcome) (r : JobRun) :
    (outcome.write now r).status = outcome.status := by
  cases outcome with
  | returned res =>
    simp only [Outcome.write, Outcome.status]
    split
    · rfl
    · cases res.retryable <;> rfl
  | raised message | invalid message eventData => rfl

theorem Kind.Updates.sameRun {k : Kind} {p : JobRun → Bool} {set : JobRun → JobRun}
    (h : k.Updates p set) (r : JobRun) : r.SameRun (set r) := by
  cases h with
  | finish => exact Outcome.write_sameRun _ _ r
  | _ => exact ⟨rfl, rfl, rfl, rfl, rfl⟩

/-! ### The consumer -/

section Consumer

variable {I : Prop}

theorem settleDownstreams_issues {P : Stmt → Prop} {check : Nat → Txn Bool}
    (hP : ∀ p, P (.selectJobs p)) (hcheck : ∀ id, (check id).Issues P) (parentJobId : Nat) :
    (settleDownstreams check parentJobId).Issues P :=
  .bind ⟨hP _, fun _ => trivial⟩ fun _ => .forM fun d _ => (hcheck d.jobId).bind fun _ => trivial

theorem triggerParentActive_continues (job : Job) :
    (triggerParentActive job).Issues (Stmt.Continues I) := by
  unfold triggerParentActive
  split
  · trivial
  · exact .bind ⟨trivial, fun _ => trivial⟩ fun _ => trivial

theorem settleCheck_continues (now : Int) (depth jobId : Nat) :
    (settleCheck now depth jobId).Issues (Stmt.Continues I) := by
  induction depth generalizing jobId with
  | zero => trivial
  | succ depth ih =>
    unfold settleCheck
    refine .bind ⟨trivial, fun _ => trivial⟩ fun rows => ?_
    split
    · trivial
    · next job _ =>
      refine .ite (fun _ => trivial) fun _ => .ite (fun _ => trivial) fun _ => ?_
      refine .bind ⟨trivial, fun _ => trivial⟩ fun _ => ?_
      refine .bind (.bind ⟨trivial, fun _ => trivial⟩ fun _ => trivial) fun _ => ?_
      refine .ite (fun _ => trivial) fun _ => ?_
      refine .bind (triggerParentActive_continues job) fun _ => .ite (fun _ => trivial) fun _ => ?_
      refine .bind ⟨trivial, fun _ => trivial⟩ fun _ => .ite (fun _ => trivial) fun _ => ?_
      exact .bind (settleDownstreams_issues (fun _ => trivial) ih jobId) fun _ => trivial

theorem spawnRun_continues (hI : I) (job : Job) (runAt : Int) (waitForRunId : Option Nat) :
    (spawnRun job runAt .pending waitForRunId).Issues (Stmt.Continues I) := by
  unfold spawnRun
  refine .bind ⟨trivial, fun _ => trivial⟩ fun _ => ?_
  refine .bind (.bind ⟨trivial, fun _ => trivial⟩ fun _ => trivial) fun _ => ?_
  refine .ite (fun _ => trivial) fun _ =>
    .bind ⟨⟨hI, job, runAt, waitForRunId, rfl⟩, fun _ => trivial⟩ fun inserted => ?_
  split
  · trivial
  · exact .bind ⟨rfl, fun _ => trivial⟩ fun _ => trivial

theorem beginNested_continues {body : Txn (Except SpawnError Nat)}
    (hbody : body.Issues (Stmt.Continues I)) : (beginNested body).Issues (Stmt.Continues I) := by
  unfold beginNested
  refine .bind ⟨trivial, fun _ => trivial⟩ fun _ => .bind hbody fun res => ?_
  split
  · exact .bind ⟨trivial, fun _ => trivial⟩ fun _ => trivial
  · exact .bind ⟨trivial, fun _ => trivial⟩ fun _ => trivial

theorem processEvent_continues (hI : I) (libs : Libs) (now : Int) (depth : Nat)
    (event : RunEvent) : (processEvent libs now depth event).Issues (Stmt.Continues I) := by
  unfold processEvent
  refine .bind ⟨trivial, fun _ => trivial⟩ fun rows => .bind ?_ fun _ => .bind ?_ fun ds => ?_
  · unfold continueRecurring
    split
    · trivial
    · split
      · trivial
      · unfold materializeRecurringSuccessor
        refine .ite (fun _ => trivial) fun _ => .bind ⟨trivial, fun _ => trivial⟩ fun prev => ?_
        split
        · refine .bind (beginNested_continues ?_) fun _ => trivial
          unfold materializeSuccessor
          refine .ite (fun _ => trivial) fun _ => ?_
          split
          · trivial
          · exact spawnRun_continues hI _ _ _
        · trivial
  · unfold continueChain
    refine .ite (fun _ => trivial) fun _ => ?_
    refine .bind ⟨trivial, fun _ => trivial⟩ fun ds => .bind (.forM fun d _ => ?_) fun _ => trivial
    unfold materializeOne
    refine .ite (fun _ => ⟨rfl, fun _ => trivial⟩) fun _ => ?_
    refine .bind (beginNested_continues (spawnRun_continues hI _ _ _)) fun res => ?_
    split
    · exact ⟨rfl, fun _ => trivial⟩
    · trivial
  · refine .bind (settleCheck_continues now depth _) fun _ => ?_
    refine .bind (.forM fun d _ => (settleCheck_continues now depth _).bind fun _ => trivial)
      fun _ => ?_
    exact ⟨trivial, fun _ => trivial⟩

theorem pollOnce_continues (hI : I) (libs : Libs) (now : Int) (depth batchSize : Nat) :
    (pollOnce libs now depth batchSize).Issues (Stmt.Continues I) :=
  .bind ⟨trivial, fun _ => trivial⟩ fun _ =>
    .bind (.forM fun e _ => processEvent_continues hI libs now depth e) fun _ => trivial

end Consumer

/-! ### The transactions -/

section Transactions

variable {I : Prop} {U : (JobRun → Bool) → (JobRun → JobRun) → Prop}

theorem settleJob_runs (now : Int) (jobId : Nat) : (settleJob now jobId).Issues (Stmt.Runs I U) :=
  .bind ⟨trivial, fun _ => trivial⟩ fun _ => trivial

theorem settleCheck_runs (now : Int) (depth jobId : Nat) :
    (settleCheck now depth jobId).Issues (Stmt.Runs I U) :=
  (settleCheck_continues now depth jobId).mono fun _ h => h.runs

theorem createJob_runs (hI : I) (libs : Libs) (now : Int) (args : CreateArgs) :
    (createJob libs now args).Issues (Stmt.Runs I U) := by
  have hinsert : ∀ plan, (insertNewJob args plan).Issues (Stmt.Runs I U) := by
    intro plan
    unfold insertNewJob
    refine .bind ⟨trivial, fun _ => trivial⟩ fun inserted => ?_
    split
    · trivial
    · refine .ite (fun _ => ?_) fun _ => trivial
      refine .bind ((spawnRun_continues hI _ _ _).mono fun _ h => h.runs) fun res => ?_
      split <;> trivial
  unfold createJob
  split
  · trivial
  · next plan _ =>
    refine .bind ?_ fun found => ?_
    · unfold existingJob
      split
      · trivial
      · exact .bind ⟨trivial, fun _ => trivial⟩ fun _ => trivial
    · split
      · trivial
      · unfold createNew
        split
        · exact hinsert plan
        · refine .bind ?_ fun _ => hinsert plan
          unfold validateChain
          refine .bind ⟨trivial, fun _ => trivial⟩ fun rows => ?_
          split
          · trivial
          · refine .ite (fun _ => trivial) fun _ => .ite (fun _ => trivial) fun _ => ?_
            refine .bind ⟨trivial, fun _ => trivial⟩ fun _ => ?_
            exact .ite (fun _ => trivial) fun _ => .ite (fun _ => trivial) fun _ => trivial

theorem cancelJob_runs (now : Int) (depth : Nat) (userId : String) (jobId : Nat)
    (hU : ∀ p, U p JobRun.flip) : (cancelJob now depth userId jobId).Issues (Stmt.Runs I U) := by
  have hhint : (terminalStatusHint jobId).Issues (Stmt.Runs I U) :=
    .bind ⟨trivial, fun _ => trivial⟩ fun _ => trivial
  unfold cancelJob
  refine .bind ⟨trivial, fun _ => trivial⟩ fun rows => ?_
  split
  · trivial
  · split
    · trivial
    · exact .bind hhint fun _ => trivial
    · refine .bind ⟨trivial, fun _ => trivial⟩ fun cas => .ite (fun _ => ?_) fun _ => ?_
      · refine .bind ⟨trivial, fun _ => trivial⟩ fun fresh => ?_
        split
        · trivial
        · exact .ite (fun _ => trivial) fun _ => .bind hhint fun _ => trivial
      · refine .bind ?_ fun _ => trivial
        refine .bind ⟨trivial, fun _ => trivial⟩ fun runs => .bind (.forM fun r _ => ?_) fun _ =>
          settleDownstreams_issues (fun _ => trivial) (settleCheck_runs now depth) jobId
        unfold flipRun
        refine .ite (fun _ => ?_) fun _ => trivial
        exact .bind ⟨hU _, fun _ => trivial⟩ fun _ => ⟨trivial, fun _ => trivial⟩

theorem claimAndPublish_runs (now : Int) (batchSize : Nat) (hU : ∀ p, U p (JobRun.queue now)) :
    (claimAndPublish now batchSize).Issues (Stmt.Runs I U) := by
  unfold claimAndPublish
  refine .bind ⟨trivial, fun _ => trivial⟩ fun runs => .ite (fun _ => trivial) fun _ => ?_
  refine .bind ⟨hU _, fun _ => trivial⟩ fun _ => ?_
  exact .bind (.forM fun r _ => ⟨trivial, fun _ => trivial⟩) fun _ => trivial

theorem sweepDlqRetrying_runs (now grace : Int) (batchSize : Nat)
    (hU : ∀ p, U p (JobRun.fail now "exceeded_max_receive (likely DLQ)")) :
    (sweepDlqRetrying now grace batchSize).Issues (Stmt.Runs I U) := by
  unfold sweepDlqRetrying
  refine .bind ⟨trivial, fun _ => trivial⟩ fun runs => .ite (fun _ => trivial) fun _ => ?_
  refine .bind ⟨hU _, fun _ => trivial⟩ fun _ => ?_
  exact .bind (.forM fun r _ => ⟨trivial, fun _ => trivial⟩) fun _ => trivial

theorem sweepQueuedStuck_runs (now now' grace : Int) (batchSize : Nat) (sent : Nat → Bool)
    (hU : ∀ p, U p fun r => { r with updatedAt := now' }) :
    (sweepQueuedStuck now now' grace batchSize sent).Issues (Stmt.Runs I U) := by
  unfold sweepQueuedStuck
  refine .bind ⟨trivial, fun _ => trivial⟩ fun runs => .bind (.forM fun r _ => ?_) fun _ => trivial
  unfold requeueRun
  refine .ite (fun _ => ?_) fun _ => trivial
  exact .bind ⟨hU _, fun _ => trivial⟩ fun _ => ⟨trivial, fun _ => trivial⟩

theorem sweepRunningOrphan_runs (registry : String → Option ActionHandler) (now now' grace : Int)
    (batchSize : Nat) (hqueue : ∀ p, U p (JobRun.queue now'))
    (hfail : ∀ p, U p (JobRun.fail now' runningOrphanMessage)) :
    (sweepRunningOrphan registry now now' grace batchSize).Issues (Stmt.Runs I U) := by
  unfold sweepRunningOrphan
  refine .bind ⟨trivial, fun _ => trivial⟩ fun runs => .ite (fun _ => trivial) fun _ => ?_
  refine .bind ⟨trivial, fun _ => trivial⟩ fun jobs => .bind (.forM fun r _ => ?_) fun _ => trivial
  unfold recoverRun
  refine .ite (fun _ => ?_) fun _ => ?_
  · exact .bind ⟨hqueue _, fun _ => trivial⟩ fun _ => ⟨trivial, fun _ => trivial⟩
  · refine .bind ⟨hfail _, fun _ => trivial⟩ fun _ => ?_
    exact .bind ⟨trivial, fun _ => trivial⟩ fun _ => (settleJob_runs now' _).bind fun _ => trivial

theorem claimTxn_runs (now : Int) {runId : Nat} (jobId : Nat)
    (hU : U (fun r => r.runId == runId && r.status.claimable) (JobRun.start now)) :
    (claimTxn now runId jobId).Issues (Stmt.Runs I U) := by
  unfold claimTxn claim
  refine .bind (.bind ⟨trivial, fun _ => trivial⟩ fun _ => .bind ⟨hU, fun _ => trivial⟩ fun _ => ?_)
    fun won => ?_
  · exact .ite (fun _ => trivial) fun _ => .bind ⟨trivial, fun _ => trivial⟩ fun _ => trivial
  · exact .ite (fun _ => .bind ⟨trivial, fun _ => trivial⟩ fun _ =>
      .bind ⟨trivial, fun _ => trivial⟩ fun _ => trivial) fun _ => trivial

theorem finishTxn_runs (now : Int) {runId : Nat} (jobId : Nat) (outcome : Outcome)
    (hU : U (fun r => r.runId == runId) (outcome.write now)) :
    (finishTxn now runId jobId outcome).Issues (Stmt.Runs I U) := by
  have hterminal : ∀ status res, U (fun r => r.runId == runId) (JobRun.finish now status res) →
      (writeTerminal now runId jobId status res).Issues (Stmt.Runs I U) := fun status res hU =>
    .bind ⟨hU, fun _ => trivial⟩ fun _ =>
      .bind ⟨trivial, fun _ => trivial⟩ fun _ => (settleJob_runs now jobId).bind fun _ => trivial
  have hretry : ∀ message, U (fun r => r.runId == runId) (JobRun.retry now message) →
      (writeRetrying now runId jobId message).Issues (Stmt.Runs I U) := fun message hU =>
    .bind ⟨hU, fun _ => trivial⟩ fun _ => ⟨trivial, fun _ => trivial⟩
  cases outcome with
  | returned res =>
    simp only [Outcome.write] at hU
    refine .ite (fun hok => hterminal _ _ ?_) fun hok => .ite (fun hre => hterminal _ _ ?_) fun hre =>
      hretry _ ?_
    · rwa [if_pos hok] at hU
    · rwa [if_neg hok, if_pos hre] at hU
    · rwa [if_neg hok, if_neg hre] at hU
  | raised message => exact hretry message hU
  | invalid message eventData =>
    exact .bind ⟨hU, fun _ => trivial⟩ fun _ =>
      .bind ⟨trivial, fun _ => trivial⟩ fun _ => (settleJob_runs now jobId).bind fun _ => trivial

theorem bumpHeartbeatAt_runs (now : Int) (runId : Nat)
    (hU : U (fun r => r.runId == runId) fun r => { r with heartbeatAt := some now }) :
    (bumpHeartbeatAt now runId).Issues (Stmt.Runs I U) :=
  .bind ⟨hU, fun _ => trivial⟩ fun _ => trivial

end Transactions

/-- The transaction inserts runs. -/
def Kind.spawns : Kind → Bool
  | .create _ _ | .poll _ _ | .deliver _ _ => true
  | _ => false

/-- What inserts runs updates none. -/
theorem Kind.Updates.not_spawns {k : Kind} {p : JobRun → Bool} {set : JobRun → JobRun}
    (h : k.Updates p set) : k.spawns = false := by
  cases h <;> rfl

/-- A transaction issues only its own updates of runs. -/
theorem Kind.runs (k : Kind) (cfg : Config) :
    (k.prog cfg).Issues (Stmt.Runs (k.spawns = true) k.Updates) := by
  cases k with
  | create now args => exact (createJob_runs rfl cfg.libs now args).bind fun _ => trivial
  | publish now n => exact (claimAndPublish_runs now n fun _ => .publish).bind fun _ => trivial
  | claim now runId jobId => exact claimTxn_runs now jobId .claim
  | finish now runId jobId outcome =>
    exact (finishTxn_runs now jobId outcome .finish).bind fun _ => trivial
  | heartbeat now runId => exact (bumpHeartbeatAt_runs now runId .heartbeat).bind fun _ => trivial
  | sweepA now grace n =>
    exact (sweepDlqRetrying_runs now grace n fun _ => .sweepA).bind fun _ => trivial
  | sweepB now now' grace n sent =>
    exact (sweepQueuedStuck_runs now now' grace n sent fun _ => .sweepB).bind fun _ => trivial
  | sweepC now now' grace n =>
    exact (sweepRunningOrphan_runs cfg.registry now now' grace n (fun _ => .reset)
      fun _ => .orphan).bind fun _ => trivial
  | poll now n =>
    exact ((pollOnce_continues rfl cfg.libs now cfg.depth n).mono fun _ h => h.runs).bind
      fun _ => trivial
  | deliver now event =>
    exact ((processEvent_continues rfl cfg.libs now cfg.depth event).mono fun _ h => h.runs).bind
      fun _ => trivial
  | cancel now userId jobId =>
    exact (cancelJob_runs now cfg.depth userId jobId fun _ => .cancel).bind fun _ => trivial

/-! ### Transactions that lock first -/

/-- The transaction selects the runs that it updates `FOR UPDATE`. -/
def Kind.locks : Kind → Bool
  | .publish _ _ | .sweepA _ _ _ | .sweepB _ _ _ _ _ | .sweepC _ _ _ _ => true
  | _ => false

/-- The statements of a transaction that updates only runs that it has locked, among those that
execute.  The state is the keys of the locked runs. -/
def lockAccount : Account Stmt Reply (List Nat) where
  may
    | .lockRuns p _, _ => ∀ r, p r = true → r.status.executing = true
    | .updateRuns p _, L => ∀ r, p r = true → r.runId ∈ L
    | .savepoint, _ | .rollbackTo, _ | .release, _ => False
    | _, _ => True
  next
    | .lockRuns _ _, L, rows, L' => L' = rows.map (·.runId) ++ L
    | _, L, _, L' => L' = L

/-- The program updates only what it has locked. -/
def LocksFirst {α : Type} (t : Txn α) (L : List Nat) : Prop :=
  t.wp lockAccount (fun _ _ => True) (fun _ _ => True) L

section Locks

variable {α β : Type} {L : List Nat}

theorem LocksFirst.quiet {t : Txn α} (h : LocksFirst t L) : LocksFirst t.quiet L := by
  unfold LocksFirst Txn.quiet
  rw [Program.wp_bind]
  exact Program.wp_mono h fun _ _ _ => trivial

theorem LocksFirst.lockRuns {p : JobRun → Bool} {n : Nat} {f : List JobRun → Txn α}
    (hp : ∀ r, p r = true → r.status.executing = true)
    (hf : ∀ rows : List JobRun, LocksFirst (f rows) (rows.map (·.runId) ++ L)) :
    LocksFirst (Txn.lockRuns p n >>= f) L :=
  ⟨hp, fun rows L' h => by subst h; exact hf rows⟩

/-- A loop over locked runs. -/
theorem LocksFirst.forM {f : JobRun → Txn Unit} {rest : Txn α} {rows : List JobRun}
    (hf : ∀ r ∈ rows, (f r).wp lockAccount (fun _ _ => True) (fun _ L' => L' = L) L)
    (hrest : LocksFirst rest L) : LocksFirst (rows.forM f >>= fun _ => rest) L := by
  unfold LocksFirst
  rw [Program.wp_bind]
  refine Program.wp_forM (fun rs L' => L' = L ∧ ∀ r ∈ rs, r ∈ rows) (fun r rs L' h => ?_)
    (fun L' h => ?_) rows L ⟨rfl, fun _ hr => hr⟩
  · obtain ⟨rfl, hrs⟩ := h
    refine Program.wp_mono (hf r (hrs r List.mem_cons_self)) fun _ L'' h => ⟨h, fun x hx => ?_⟩
    exact hrs x (List.mem_cons_of_mem _ hx)
  · obtain ⟨rfl, -⟩ := h
    exact hrest

theorem updateRuns_locked {p : JobRun → Bool} {set : JobRun → JobRun} {f : List Nat → Txn α}
    {Q : α → List Nat → Prop} (hp : ∀ r, p r = true → r.runId ∈ L)
    (hf : ∀ ids, (f ids).wp lockAccount (fun _ _ => True) Q L) :
    (Txn.updateRuns p set >>= f).wp lockAccount (fun _ _ => True) Q L :=
  ⟨hp, fun ids L' h => by subst h; exact hf ids⟩

theorem insertEvent_locked {row : RunEvent} {Q : Unit → List Nat → Prop} (hQ : Q () L) :
    (Txn.insertEvent row).wp lockAccount (fun _ _ => True) Q L :=
  ⟨trivial, fun _ L' h => by subst h; exact hQ⟩

end Locks

theorem mem_locked {rows : List JobRun} {L : List Nat} {r : JobRun} (hr : r ∈ rows) :
    r.runId ∈ rows.map (·.runId) ++ L :=
  List.mem_append_left _ (List.mem_map_of_mem hr)

theorem claimAndPublish_locksFirst (now : Int) (n : Nat) : LocksFirst (claimAndPublish now n) [] := by
  refine .lockRuns (fun r hr => ?_) fun rows => ?_
  · simp only [Bool.and_eq_true, beq_iff_eq] at hr
    rw [hr.1]
    rfl
  · split
    · trivial
    · refine updateRuns_locked (fun r hr => List.mem_append_left _ (of_decide_eq_true hr)) fun _ => ?_
      exact LocksFirst.forM (fun r _ => insertEvent_locked rfl) trivial

theorem sweepDlqRetrying_locksFirst (now grace : Int) (n : Nat) :
    LocksFirst (sweepDlqRetrying now grace n) [] := by
  refine .lockRuns (fun r hr => ?_) fun rows => ?_
  · simp only [Bool.and_eq_true, beq_iff_eq] at hr
    rw [hr.1]
    rfl
  · split
    · trivial
    · refine updateRuns_locked (fun r hr => List.mem_append_left _ (of_decide_eq_true hr)) fun _ => ?_
      exact LocksFirst.forM (fun r _ => insertEvent_locked rfl) trivial

theorem sweepQueuedStuck_locksFirst (now now' grace : Int) (n : Nat) (sent : Nat → Bool) :
    LocksFirst (sweepQueuedStuck now now' grace n sent) [] := by
  refine .lockRuns (fun r hr => ?_) fun rows => .forM (fun r hr => ?_) trivial
  · simp only [Bool.and_eq_true, beq_iff_eq] at hr
    rw [hr.1.1]
    rfl
  · unfold requeueRun
    split
    · refine updateRuns_locked (fun x hx => ?_) fun _ => insertEvent_locked rfl
      rw [beq_iff_eq.mp hx]
      exact mem_locked hr
    · rfl

theorem settleJob_locked (now : Int) (jobId : Nat) {L : List Nat} :
    (settleJob now jobId).wp lockAccount (fun _ _ => True) (fun _ L' => L' = L) L :=
  ⟨trivial, fun _ _ h => h⟩

theorem sweepRunningOrphan_locksFirst (registry : String → Option ActionHandler)
    (now now' grace : Int) (n : Nat) :
    LocksFirst (sweepRunningOrphan registry now now' grace n) [] := by
  refine .lockRuns (fun r hr => ?_) fun rows => ?_
  · simp only [Bool.and_eq_true, beq_iff_eq] at hr
    rw [hr.1]
    rfl
  · split
    · trivial
    · refine ⟨trivial, fun jobs L' h => ?_⟩
      subst h
      refine LocksFirst.forM (fun r hr => ?_) trivial
      have hmine : ∀ x : JobRun, (x.runId == r.runId) = true → x.runId ∈ rows.map (·.runId) ++ [] := by
        intro x hx
        rw [beq_iff_eq.mp hx]
        exact mem_locked hr
      unfold recoverRun
      split
      · exact updateRuns_locked hmine fun _ => insertEvent_locked rfl
      · refine updateRuns_locked hmine fun _ => ?_
        rw [Program.wp_bind]
        refine insertEvent_locked ?_
        rw [Program.wp_bind]
        exact Program.wp_mono (settleJob_locked now' r.jobId) fun _ _ h => h

/-- The transactions that lock first. -/
theorem Kind.locksFirst {k : Kind} (hk : k.locks = true) (cfg : Config) :
    LocksFirst (k.prog cfg) [] := by
  cases k with
  | publish now n => exact (claimAndPublish_locksFirst now n).quiet
  | sweepA now grace n => exact (sweepDlqRetrying_locksFirst now grace n).quiet
  | sweepB now now' grace n sent => exact (sweepQueuedStuck_locksFirst now now' grace n sent).quiet
  | sweepC now now' grace n =>
    exact (sweepRunningOrphan_locksFirst cfg.registry now now' grace n).quiet
  | _ => cases hk

end TaskScheduler
