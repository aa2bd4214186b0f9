import TaskScheduler.Interleave.Spawning

/-! The cursor of the outbox: only the continuation consumer stamps an event, and a new event is
unstamped. -/

namespace TaskScheduler

open Lib

/-- A statement that stamps no event. -/
def Stmt.Unstamping : Stmt → Prop
  | .updateEvents _ _ => False
  | _ => True

section Issues

theorem settleJob_unstamping (now : Int) (jobId : Nat) :
    (settleJob now jobId).Issues Stmt.Unstamping :=
  .bind ⟨trivial, fun _ => trivial⟩ fun _ => trivial

theorem settleCheck_unstamping (now : Int) (depth jobId : Nat) :
    (settleCheck now depth jobId).Issues Stmt.Unstamping := by
  induction depth generalizing jobId with
  | zero => trivial
  | succ depth ih =>
    unfold settleCheck
    refine .bind ⟨trivial, fun _ => trivial⟩ fun rows => ?_
    split
    · trivial
    · next job _ =>
      have hparent : (triggerParentActive job).Issues Stmt.Unstamping := by
        unfold triggerParentActive
        split
        · trivial
        · exact .bind ⟨trivial, fun _ => trivial⟩ fun _ => trivial
      refine .ite (fun _ => trivial) fun _ => .ite (fun _ => trivial) fun _ => ?_
      refine .bind ⟨trivial, fun _ => trivial⟩ fun _ => ?_
      refine .bind (.bind ⟨trivial, fun _ => trivial⟩ fun _ => trivial) fun _ => ?_
      refine .ite (fun _ => trivial) fun _ => ?_
      refine .bind hparent fun _ => .ite (fun _ => trivial) fun _ => ?_
      refine .bind ⟨trivial, fun _ => trivial⟩ fun _ => .ite (fun _ => trivial) fun _ => ?_
      exact .bind (settleDownstreams_issues (fun _ => trivial) ih jobId) fun _ => trivial

theorem createJob_unstamping (libs : Libs) (now : Int) (args : CreateArgs) :
    (createJob libs now args).Issues Stmt.Unstamping := by
  have hspawn : ∀ job runAt, (materializeInitial job runAt).Issues Stmt.Unstamping := by
    intro job runAt
    unfold materializeInitial spawnRun
    refine .bind ⟨trivial, fun _ => trivial⟩ fun _ => ?_
    refine .bind (.bind ⟨trivial, fun _ => trivial⟩ fun _ => trivial) fun _ => ?_
    refine .ite (fun _ => trivial) fun _ => .bind ⟨trivial, fun _ => trivial⟩ fun inserted => ?_
    split
    · trivial
    · exact .bind ⟨trivial, fun _ => trivial⟩ fun _ => trivial
  have hinsert : ∀ plan, (insertNewJob args plan).Issues Stmt.Unstamping := by
    intro plan
    unfold insertNewJob
    refine .bind ⟨trivial, fun _ => trivial⟩ fun inserted => ?_
    split
    · trivial
    · refine .ite (fun _ => .bind (hspawn _ _) fun res => ?_) fun _ => trivial
      split <;> trivial
  unfold createJob
  split
  · trivial
  · next plan _ =>
    refine .bind ?_ fun found => ?_
    · unfold existingJob
      split
      · trivial
      · exact .bind ⟨trivial, fun _ => trivial⟩ fun _ => trivial
    · split
      · trivial
      · unfold createNew
        split
        · exact hinsert plan
        · refine .bind ?_ fun _ => hinsert plan
          unfold validateChain
          refine .bind ⟨trivial, fun _ => trivial⟩ fun rows => ?_
          split
          · trivial
          · refine .ite (fun _ => trivial) fun _ => .ite (fun _ => trivial) fun _ => ?_
            refine .bind ⟨trivial, fun _ => trivial⟩ fun _ => ?_
            exact .ite (fun _ => trivial) fun _ => .ite (fun _ => trivial) fun _ => trivial

theorem cancelJob_unstamping (now : Int) (depth : Nat) (userId : String) (jobId : Nat) :
    (cancelJob now depth userId jobId).Issues Stmt.Unstamping := by
  have hhint : (terminalStatusHint jobId).Issues Stmt.Unstamping :=
    .bind ⟨trivial, fun _ => trivial⟩ fun _ => trivial
  unfold cancelJob
  refine .bind ⟨trivial, fun _ => trivial⟩ fun rows => ?_
  split
  · trivial
  · split
    · trivial
    · exact .bind hhint fun _ => trivial
    · refine .bind ⟨trivial, fun _ => trivial⟩ fun cas => .ite (fun _ => ?_) fun _ => ?_
      · refine .bind ⟨trivial, fun _ => trivial⟩ fun fresh => ?_
        split
        · trivial
        · exact .ite (fun _ => trivial) fun _ => .bind hhint fun _ => trivial
      · refine .bind ?_ fun _ => trivial
        refine .bind ⟨trivial, fun _ => trivial⟩ fun runs => .bind (.forM fun r _ => ?_) fun _ =>
          settleDownstreams_issues (fun _ => trivial) (settleCheck_unstamping now depth) jobId
        unfold flipRun
        refine .ite (fun _ => ?_) fun _ => trivial
        exact .bind ⟨trivial, fun _ => trivial⟩ fun _ => ⟨trivial, fun _ => trivial⟩

theorem finishTxn_unstamping (now : Int) (runId jobId : Nat) (outcome : Outcome) :
    (finishTxn now runId jobId outcome).Issues Stmt.Unstamping := by
  have hterminal : ∀ status res,
      (writeTerminal now runId jobId status res).Issues Stmt.Unstamping := fun status res =>
    .bind ⟨trivial, fun _ => trivial⟩ fun _ => .bind ⟨trivial, fun _ => trivial⟩ fun _ =>
      (settleJob_unstamping now jobId).bind fun _ => trivial
  have hretry : ∀ message, (writeRetrying now runId jobId message).Issues Stmt.Unstamping :=
    fun message => .bind ⟨trivial, fun _ => trivial⟩ fun _ => ⟨trivial, fun _ => trivial⟩
  cases outcome with
  | returned res =>
    exact .ite (fun _ => hterminal _ _) fun _ => .ite (fun _ => hterminal _ _) fun _ => hretry _
  | raised message => exact hretry message
  | invalid message eventData =>
    exact .bind ⟨trivial, fun _ => trivial⟩ fun _ => .bind ⟨trivial, fun _ => trivial⟩ fun _ =>
      (settleJob_unstamping now jobId).bind fun _ => trivial

/-- The updates of the watcher and of Sweep A, after which they log an event for each run. -/
theorem updateAndLog_unstamping {α : Type} {p : JobRun → Bool} {set : JobRun → JobRun}
    {runs : List JobRun} {row : JobRun → RunEvent} {a : α} :
    (do
      let _ ← Txn.updateRuns p set
      runs.forM fun r => Txn.insertEvent (row r)
      return a : Txn α).Issues Stmt.Unstamping :=
  .bind ⟨trivial, fun _ => trivial⟩ fun _ =>
    .bind (.forM fun _ _ => ⟨trivial, fun _ => trivial⟩) fun _ => trivial

/-- Only the consumer stamps events. -/
theorem Kind.unstamping {k : Kind} (hk : k.consumes = false) (cfg : Config) :
    (k.prog cfg).Issues Stmt.Unstamping := by
  have hquiet : ∀ {α : Type} {t : Txn α}, t.Issues Stmt.Unstamping →
      t.quiet.Issues Stmt.Unstamping := fun ht => ht.bind fun _ => trivial
  cases k with
  | create now args => exact hquiet (createJob_unstamping cfg.libs now args)
  | publish now batchSize =>
    exact hquiet (.bind ⟨trivial, fun _ => trivial⟩ fun runs =>
      .ite (fun _ => trivial) fun _ => updateAndLog_unstamping)
  | claim now runId jobId =>
    simp only [Kind.prog, claimTxn]
    refine .bind (.bind ⟨trivial, fun _ => trivial⟩ fun _ => .bind ⟨trivial, fun _ => trivial⟩
      fun _ => .ite (fun _ => trivial) fun _ => .bind ⟨trivial, fun _ => trivial⟩ fun _ => trivial)
      fun won => .ite (fun _ => ?_) fun _ => trivial
    exact .bind ⟨trivial, fun _ => trivial⟩ fun _ => .bind ⟨trivial, fun _ => trivial⟩ fun _ => trivial
  | finish now runId jobId outcome => exact hquiet (finishTxn_unstamping now runId jobId outcome)
  | heartbeat now runId => exact hquiet (.bind ⟨trivial, fun _ => trivial⟩ fun _ => trivial)
  | sweepA now grace batchSize =>
    exact hquiet (.bind ⟨trivial, fun _ => trivial⟩ fun runs =>
      .ite (fun _ => trivial) fun _ => updateAndLog_unstamping)
  | sweepB now now' grace batchSize sent =>
    refine hquiet (.bind ⟨trivial, fun _ => trivial⟩ fun runs => .bind (.forM fun r _ => ?_)
      fun _ => trivial)
    unfold requeueRun
    exact .ite (fun _ => .bind ⟨trivial, fun _ => trivial⟩ fun _ => ⟨trivial, fun _ => trivial⟩)
      fun _ => trivial
  | sweepC now now' grace batchSize =>
    refine hquiet (.bind ⟨trivial, fun _ => trivial⟩ fun runs => .ite (fun _ => trivial) fun _ => ?_)
    refine .bind ⟨trivial, fun _ => trivial⟩ fun jobs => .bind (.forM fun r _ => ?_) fun _ => trivial
    unfold recoverRun
    refine .ite (fun _ => ?_) fun _ => ?_
    · exact .bind ⟨trivial, fun _ => trivial⟩ fun _ => ⟨trivial, fun _ => trivial⟩
    · exact .bind ⟨trivial, fun _ => trivial⟩ fun _ => .bind ⟨trivial, fun _ => trivial⟩ fun _ =>
        (settleJob_unstamping now' _).bind fun _ => trivial
  | cancel now userId jobId => exact hquiet (cancelJob_unstamping now cfg.depth userId jobId)
  | poll | deliver => cases hk

end Issues

/-- Every event of `t'` is one of `t` as it was, or is unstamped. -/
def Tables.Unstamped (t t' : Tables) : Prop :=
  ∀ e ∈ t'.events, e ∈ t.events ∨ e.processedBy = []

/-- A session that has stamped no event, now and at its savepoint. -/
def Session.Unstamped (t : Tables) (ses : Session) : Prop :=
  t.Unstamped (ses.view t) ∧
    ∀ ws held, ses.saved = some (ws, held) → t.Unstamped (Write.applyAll ws t)

theorem exec_unstamped {pick : Nat → Bool} {others : List Session} {t : Tables} (s : Stmt)
    (d : Seq × Session) (r : Reply s) (d' : Seq × Session) (hs : s.Unstamping)
    (h : d.2.Unstamped t) (hexec : s.exec pick others t d = some (r, d')) : d'.2.Unstamped t := by
  obtain ⟨seq, ses⟩ := d
  obtain ⟨hnow, hsaved⟩ := h
  dsimp only at hnow hsaved
  -- a write to another table
  have hkeep : ∀ w : Write, (w.apply (ses.view t)).events = (ses.view t).events →
      t.Unstamped ((ses.write w).view t) := by
    intro w hw e he
    have heq : (ses.write w).view t = w.apply (ses.view t) := by simp [Session.view, Session.write]
    rw [heq, hw] at he
    exact hnow e he
  cases s with
  | updateEvents p set => exact hs.elim
  | insertEvent row =>
    cases hexec
    refine ⟨fun e he => ?_, hsaved⟩
    simp only [Session.view, Session.write, Write.applyAll_append, Write.applyAll_singleton,
      Write.apply, List.mem_append, List.mem_singleton] at he
    rcases he with he | rfl
    · exact hnow e he
    · exact .inr rfl
  | insertJob row | insertRun row =>
    simp only [Stmt.exec] at hexec
    split at hexec
    · cases hexec
    · split at hexec <;> cases hexec
      · exact ⟨hnow, hsaved⟩
      · exact ⟨hkeep _ rfl, hsaved⟩
  | updateJobs p set =>
    simp only [Stmt.exec] at hexec
    split at hexec <;> cases hexec
    exact ⟨hkeep (.updateJobs _ set) rfl, hsaved⟩
  | updateRuns p set =>
    simp only [Stmt.exec] at hexec
    split at hexec <;> cases hexec
    exact ⟨hkeep (.updateRuns _ set) rfl, hsaved⟩
  | advisoryLock key =>
    simp only [Stmt.exec] at hexec
    split at hexec <;> cases hexec
    exact ⟨hnow, hsaved⟩
  | savepoint =>
    cases hexec
    refine ⟨hnow, fun ws held heq => ?_⟩
    cases heq
    exact hnow
  | rollbackTo =>
    simp only [Stmt.exec] at hexec
    split at hexec
    · cases hexec
      exact ⟨hnow, hsaved⟩
    · next ws held heq =>
      cases hexec
      exact ⟨hsaved ws held heq, fun _ _ hnone => by cases hnone⟩
  | release =>
    cases hexec
    exact ⟨hnow, fun _ _ hnone => by cases hnone⟩
  | selectJobs p | loadJobs p | ancestors a b | selectRuns p | lockRuns p n | selectEvents p n =>
    cases hexec
    exact ⟨hnow, hsaved⟩

/-- A transaction at once that is not the consumer's stamps no event. -/
theorem Sys.atomic_unstamped {cfg : Config} {σ σ' : Sys} {k : Kind} (hk : k.consumes = false)
    {start : Int} {pick : Nat → Bool} (hstep : σ.step cfg (.atomic k start pick) = some σ') :
    σ.tables.Unstamped σ'.tables := by
  obtain ⟨-, ⟨seq, -, rfl⟩ | ⟨won, seq, ses, hrun, rfl⟩⟩ := Sys.step_atomic hstep
  · exact fun e he => .inl he
  · have hkeep : ∀ s (d : Seq × Session) r d', Stmt.Unstamping s → d.2.Unstamped σ.tables →
        s.exec pick σ.open_ σ.tables d = some (r, d') → d'.2.Unstamped σ.tables := exec_unstamped
    have hinit : Session.Unstamped σ.tables { start } := ⟨fun e he => .inl he, by simp⟩
    exact ((Kind.unstamping hk cfg).run hkeep hinit hrun).1

end TaskScheduler
