import TaskScheduler.Interleave.Updates

/-! The events that each transaction records. -/

namespace TaskScheduler

open Lib

/-- The statement records no events but those of the types `T`. -/
def Stmt.Logs (T : EventType → Prop) : Stmt → Prop
  | .insertEvent row => T row.eventType
  | _ => True

/-- The types of the events that a transaction records. -/
def Kind.logs : Kind → EventType → Prop
  | .create _ _, type => type = .created
  | .publish _ _, type => type = .queued
  | .claim _ _ _, type => type = .started
  | .finish _ _ _ _, type => type = .succeeded ∨ type = .failed ∨ type = .retry
  | .heartbeat _ _, _ => False
  | .sweepA _ _ _, type => type = .failed
  | .sweepB _ _ _ _ _, type => type = .reenqueued
  | .sweepC _ _ _ _, type => type = .reenqueued ∨ type = .failed
  | .poll _ _, type | .deliver _ _, type =>
    type = .created ∨ type = .chainSkippedPredicateMiss ∨ type = .chainSkippedSlowConsumer
  | .cancel _ _ _, type => type = .cancelled

/-! ### The parts of the transactions -/

section Parts

variable {T : EventType → Prop}

theorem spawnRun_logs (hT : T .created) (job : Job) (runAt : Int) (status : RunStatus)
    (waitForRunId : Option Nat) :
    (spawnRun job runAt status waitForRunId).Issues (Stmt.Logs T) := by
  unfold spawnRun acquireJobLock hasExecutingRun
  refine .bind ⟨trivial, fun _ => trivial⟩ fun _ => ?_
  refine .bind (.bind ⟨trivial, fun _ => trivial⟩ fun _ => trivial) fun _ => ?_
  refine .ite (fun _ => trivial) fun _ => .bind ⟨trivial, fun _ => trivial⟩ fun inserted => ?_
  split
  · trivial
  · exact .bind ⟨hT, fun _ => trivial⟩ fun _ => trivial

theorem beginNested_logs {body : Txn (Except SpawnError Nat)} (hbody : body.Issues (Stmt.Logs T)) :
    (beginNested body).Issues (Stmt.Logs T) := by
  unfold beginNested
  refine .bind ⟨trivial, fun _ => trivial⟩ fun _ => .bind hbody fun res => ?_
  split
  · exact .bind ⟨trivial, fun _ => trivial⟩ fun _ => trivial
  · exact .bind ⟨trivial, fun _ => trivial⟩ fun _ => trivial

theorem settleJob_logs (now : Int) (jobId : Nat) : (settleJob now jobId).Issues (Stmt.Logs T) :=
  .bind ⟨trivial, fun _ => trivial⟩ fun _ => trivial

theorem settleCheck_logs (now : Int) (depth jobId : Nat) :
    (settleCheck now depth jobId).Issues (Stmt.Logs T) := by
  induction depth generalizing jobId with
  | zero => trivial
  | succ depth ih =>
    have hparent : ∀ job, (triggerParentActive job).Issues (Stmt.Logs T) := by
      intro job
      unfold triggerParentActive
      split
      · trivial
      · exact .bind ⟨trivial, fun _ => trivial⟩ fun _ => trivial
    unfold settleCheck acquireJobLock hasExecutingRun
    refine .bind ⟨trivial, fun _ => trivial⟩ fun rows => ?_
    split
    · trivial
    · next job _ =>
      refine .ite (fun _ => trivial) fun _ => .ite (fun _ => trivial) fun _ => ?_
      refine .bind ⟨trivial, fun _ => trivial⟩ fun _ => ?_
      refine .bind (.bind ⟨trivial, fun _ => trivial⟩ fun _ => trivial) fun _ => ?_
      refine .ite (fun _ => trivial) fun _ => .bind (hparent job) fun _ => ?_
      refine .ite (fun _ => trivial) fun _ => .bind ⟨trivial, fun _ => trivial⟩ fun _ => ?_
      refine .ite (fun _ => trivial) fun _ => ?_
      exact .bind (settleDownstreams_issues (fun _ => trivial) ih jobId) fun _ => trivial

theorem continueRecurring_logs (hT : T .created) (libs : Libs) (event : RunEvent)
    (upstreamJob : Option Job) :
    (continueRecurring libs event upstreamJob).Issues (Stmt.Logs T) := by
  unfold continueRecurring
  split
  · trivial
  · split
    · trivial
    · unfold materializeRecurringSuccessor
      refine .ite (fun _ => trivial) fun _ => .bind ⟨trivial, fun _ => trivial⟩ fun prev => ?_
      split
      · refine .bind (beginNested_logs ?_) fun _ => trivial
        unfold materializeSuccessor
        refine .ite (fun _ => trivial) fun _ => ?_
        split
        · trivial
        · exact spawnRun_logs hT _ _ _ _
      · trivial

theorem continueChain_logs (hT : T .created) (hmiss : T .chainSkippedPredicateMiss)
    (hslow : T .chainSkippedSlowConsumer) (event : RunEvent) (upstreamJob : Option Job) :
    (continueChain event upstreamJob).Issues (Stmt.Logs T) := by
  unfold continueChain
  refine .ite (fun _ => trivial) fun _ => ?_
  refine .bind ⟨trivial, fun _ => trivial⟩ fun ds => .bind (.forM fun d _ => ?_) fun _ => trivial
  unfold materializeOne
  refine .ite (fun _ => ⟨hmiss, fun _ => trivial⟩) fun _ => ?_
  refine .bind (beginNested_logs (spawnRun_logs hT _ _ _ _)) fun res => ?_
  split
  · exact ⟨hslow, fun _ => trivial⟩
  · trivial

theorem processEvent_logs (hT : T .created) (hmiss : T .chainSkippedPredicateMiss)
    (hslow : T .chainSkippedSlowConsumer) (libs : Libs) (now : Int) (depth : Nat)
    (event : RunEvent) : (processEvent libs now depth event).Issues (Stmt.Logs T) := by
  unfold processEvent
  refine .bind ⟨trivial, fun _ => trivial⟩ fun rows => ?_
  refine .bind (continueRecurring_logs hT libs event _) fun _ => ?_
  refine .bind (continueChain_logs hT hmiss hslow event _) fun ds => ?_
  refine .bind (settleCheck_logs now depth _) fun _ => ?_
  refine .bind (.forM fun d _ => (settleCheck_logs now depth _).bind fun _ => trivial) fun _ => ?_
  exact ⟨trivial, fun _ => trivial⟩

theorem createJob_logs (hT : T .created) (libs : Libs) (now : Int) (args : CreateArgs) :
    (createJob libs now args).Issues (Stmt.Logs T) := by
  have hinsert : ∀ plan, (insertNewJob args plan).Issues (Stmt.Logs T) := by
    intro plan
    unfold insertNewJob
    refine .bind ⟨trivial, fun _ => trivial⟩ fun inserted => ?_
    split
    · trivial
    · refine .ite (fun _ => .bind (spawnRun_logs hT _ _ _ _) fun res => ?_) fun _ => trivial
      split <;> trivial
  have hchain : ∀ userId jobId, (validateChain userId jobId).Issues (Stmt.Logs T) := by
    intro userId jobId
    unfold validateChain
    refine .bind ⟨trivial, fun _ => trivial⟩ fun rows => ?_
    split
    · trivial
    · refine .ite (fun _ => trivial) fun _ => .ite (fun _ => trivial) fun _ => ?_
      refine .bind ⟨trivial, fun _ => trivial⟩ fun _ => ?_
      exact .ite (fun _ => trivial) fun _ => .ite (fun _ => trivial) fun _ => trivial
  unfold createJob
  split
  · trivial
  · next plan _ =>
    refine .bind ?_ fun found => ?_
    · unfold existingJob
      split
      · trivial
      · exact .bind ⟨trivial, fun _ => trivial⟩ fun _ => trivial
    · split
      · trivial
      · unfold createNew
        split
        · exact hinsert plan
        · exact .bind (hchain _ _) fun _ => hinsert plan

theorem cancelJob_logs (hT : T .cancelled) (now : Int) (depth : Nat) (userId : String) (jobId : Nat) :
    (cancelJob now depth userId jobId).Issues (Stmt.Logs T) := by
  have hhint : (terminalStatusHint jobId).Issues (Stmt.Logs T) :=
    .bind ⟨trivial, fun _ => trivial⟩ fun _ => trivial
  have hflip : ∀ run, (flipRun jobId run).Issues (Stmt.Logs T) := fun run =>
    .ite (fun _ => .bind ⟨trivial, fun _ => trivial⟩ fun _ => ⟨hT, fun _ => trivial⟩) fun _ => trivial
  unfold cancelJob
  refine .bind ⟨trivial, fun _ => trivial⟩ fun rows => ?_
  split
  · trivial
  · split
    · trivial
    · exact .bind hhint fun _ => trivial
    · refine .bind ⟨trivial, fun _ => trivial⟩ fun cas => .ite (fun _ => ?_) fun _ => ?_
      · refine .bind ⟨trivial, fun _ => trivial⟩ fun fresh => ?_
        split
        · trivial
        · exact .ite (fun _ => trivial) fun _ => .bind hhint fun _ => trivial
      · refine .bind ?_ fun _ => trivial
        refine .bind ⟨trivial, fun _ => trivial⟩ fun runs => .bind (.forM fun r _ => hflip r) fun _ => ?_
        exact settleDownstreams_issues (fun _ => trivial) (settleCheck_logs now depth) jobId

theorem claimTxn_logs (hT : T .started) (now : Int) (runId jobId : Nat) :
    (claimTxn now runId jobId).Issues (Stmt.Logs T) := by
  unfold claimTxn claim
  refine .bind (.bind ⟨trivial, fun _ => trivial⟩ fun _ => .bind ⟨trivial, fun _ => trivial⟩ fun _ => ?_)
    fun won => ?_
  · exact .ite (fun _ => trivial) fun _ => .bind ⟨hT, fun _ => trivial⟩ fun _ => trivial
  · exact .ite (fun _ => .bind ⟨trivial, fun _ => trivial⟩ fun _ =>
      .bind ⟨trivial, fun _ => trivial⟩ fun _ => trivial) fun _ => trivial

/-- The update and the event of a run that a worker is done with, or a sweep. -/
theorem write_logs {p : JobRun → Bool} {set : JobRun → JobRun} {row : RunEvent} {t : Txn Unit}
    (hrow : T row.eventType) (ht : t.Issues (Stmt.Logs T)) :
    (Txn.updateRuns p set >>= fun _ => Txn.insertEvent row >>= fun _ => t).Issues (Stmt.Logs T) :=
  .bind ⟨trivial, fun _ => trivial⟩ fun _ => .bind ⟨hrow, fun _ => trivial⟩ fun _ => ht

theorem finishTxn_logs (hsucceeded : T .succeeded) (hfailed : T .failed) (hretry : T .retry)
    (now : Int) (runId jobId : Nat) (outcome : Outcome) :
    (finishTxn now runId jobId outcome).Issues (Stmt.Logs T) := by
  have hsettle := (settleJob_logs (T := T) now jobId).bind (f := fun _ => .ret ()) fun _ => trivial
  cases outcome with
  | returned res =>
    refine .ite (fun _ => write_logs hsucceeded hsettle) fun _ =>
      .ite (fun _ => write_logs hfailed hsettle) fun _ => ?_
    exact .bind ⟨trivial, fun _ => trivial⟩ fun _ => ⟨hretry, fun _ => trivial⟩
  | raised message => exact .bind ⟨trivial, fun _ => trivial⟩ fun _ => ⟨hretry, fun _ => trivial⟩
  | invalid message eventData => exact write_logs hfailed hsettle

end Parts

/-- A transaction records events of its own types only. -/
theorem Kind.issues_logs (k : Kind) (cfg : Config) : (k.prog cfg).Issues (Stmt.Logs k.logs) := by
  cases k with
  | create now args =>
    exact (createJob_logs (T := (Kind.create now args).logs) rfl cfg.libs now args).bind
      fun _ => trivial
  | publish now n =>
    refine .bind (.bind ⟨trivial, fun _ => trivial⟩ fun runs => .ite (fun _ => trivial) fun _ => ?_)
      fun _ => trivial
    refine .bind ⟨trivial, fun _ => trivial⟩ fun _ => ?_
    exact .bind (.forM fun r _ => ⟨rfl, fun _ => trivial⟩) fun _ => trivial
  | claim now runId jobId =>
    exact claimTxn_logs (T := (Kind.claim now runId jobId).logs) rfl now runId jobId
  | finish now runId jobId outcome =>
    exact (finishTxn_logs (.inl rfl) (.inr (.inl rfl)) (.inr (.inr rfl)) now runId jobId outcome).bind
      fun _ => trivial
  | heartbeat now runId =>
    exact .bind (.bind ⟨trivial, fun _ => trivial⟩ fun _ => trivial) fun _ => trivial
  | sweepA now grace n =>
    refine .bind (.bind ⟨trivial, fun _ => trivial⟩ fun runs => .ite (fun _ => trivial) fun _ => ?_)
      fun _ => trivial
    refine .bind ⟨trivial, fun _ => trivial⟩ fun _ => ?_
    exact .bind (.forM fun r _ => ⟨rfl, fun _ => trivial⟩) fun _ => trivial
  | sweepB now now' grace n sent =>
    refine .bind (.bind ⟨trivial, fun _ => trivial⟩ fun runs => .bind (.forM fun r _ => ?_)
      fun _ => trivial) fun _ => trivial
    exact .ite (fun _ => .bind ⟨trivial, fun _ => trivial⟩ fun _ => ⟨rfl, fun _ => trivial⟩)
      fun _ => trivial
  | sweepC now now' grace n =>
    refine .bind (.bind ⟨trivial, fun _ => trivial⟩ fun runs => .ite (fun _ => trivial) fun _ => ?_)
      fun _ => trivial
    refine .bind ⟨trivial, fun _ => trivial⟩ fun jobs => .bind (.forM fun r _ => ?_) fun _ => trivial
    refine .ite (fun _ => ?_) fun _ => ?_
    · exact .bind ⟨trivial, fun _ => trivial⟩ fun _ => ⟨.inl rfl, fun _ => trivial⟩
    · exact write_logs (.inr rfl) ((settleJob_logs now' _).bind (f := fun _ => .ret ()) fun _ => trivial)
  | poll now n =>
    refine .bind (.bind ⟨trivial, fun _ => trivial⟩ fun es => .bind (.forM fun e _ => ?_)
      fun _ => trivial) fun _ => trivial
    exact processEvent_logs (.inl rfl) (.inr (.inl rfl)) (.inr (.inr rfl)) cfg.libs now cfg.depth e
  | deliver now event =>
    exact (processEvent_logs (.inl rfl) (.inr (.inl rfl)) (.inr (.inr rfl)) cfg.libs now cfg.depth
      event).bind fun _ => trivial
  | cancel now userId jobId =>
    exact (cancelJob_logs (T := (Kind.cancel now userId jobId).logs) rfl now cfg.depth userId
      jobId).bind fun _ => trivial

end TaskScheduler
