import TaskScheduler.Fleet.Model
import TaskScheduler.Interleave.System
import TaskScheduler.Interleave.Updates

/-! Which statuses a transaction may give to which runs, read off its statements. -/

namespace TaskScheduler

open Lib

/-- The statement gives a run `id` a status `s` only if `E id s`; new runs are PENDING. -/
def Stmt.Enters (E : Nat → RunStatus → Prop) : Stmt → Prop
  | .updateRuns p set => (∀ r : JobRun, r.SameRun (set r)) ∧
    ((∀ r, (set r).status = r.status) ∨ ∀ r, p r = true → ∀ r', E r.runId (set r').status)
  | .insertRun row => row.status = .pending
  | _ => True

/-- The runs stay; a run that is new is PENDING, and one with a new status has one of `E`. -/
structure Tables.Enters (E : Nat → RunStatus → Prop) (t t' : Tables) : Prop where
  forth : ∀ r ∈ t.runs, ∃ r' ∈ t'.runs, r.SameRun r'
  back : ∀ r' ∈ t'.runs, (∃ r ∈ t.runs, r.SameRun r' ∧ r'.status = r.status) ∨
    r'.status = .pending ∨ E r'.runId r'.status

theorem Tables.Enters.refl (E : Nat → RunStatus → Prop) (t : Tables) : t.Enters E t :=
  ⟨fun r hr => ⟨r, hr, .refl r⟩, fun r hr => .inl ⟨r, hr, .refl r, rfl⟩⟩

theorem Tables.Enters.of_runs {E : Nat → RunStatus → Prop} {t t' t'' : Tables}
    (h : t.Enters E t') (heq : t''.runs = t'.runs) : t.Enters E t'' :=
  ⟨by rw [heq]; exact h.forth, by rw [heq]; exact h.back⟩

theorem Tables.Enters.updateRuns {E : Nat → RunStatus → Prop} {t t' : Tables} (h : t.Enters E t')
    {p : JobRun → Bool} {set : JobRun → JobRun} (hs : (Stmt.updateRuns p set).Enters E) :
    t.Enters E ((Write.updateRuns ((t'.runs.filter p).map (·.runId)) set).apply t') := by
  obtain ⟨hsame, hstatus⟩ := hs
  constructor
  · intro r hr
    obtain ⟨r', hr', hrr'⟩ := h.forth r hr
    refine ⟨_, List.mem_map.mpr ⟨r', hr', rfl⟩, ?_⟩
    split
    · exact hrr'.trans (hsame r')
    · exact hrr'
  · intro r' hr'
    obtain ⟨x, hx, rfl⟩ := List.mem_map.mp hr'
    split
    · next hin =>
      rcases hstatus with hkeep | henter
      · rcases h.back x hx with ⟨r, hr, hrx, hs⟩ | hs | hs
        · exact .inl ⟨r, hr, hrx.trans (hsame x), (hkeep x).trans hs⟩
        · exact .inr (.inl ((hkeep x).trans hs))
        · rw [(hsame x).runId, hkeep x]
          exact .inr (.inr hs)
      · obtain ⟨y, hy, hid⟩ := List.mem_map.mp hin
        rw [(hsame x).runId, ← hid]
        exact .inr (.inr (henter y (List.mem_filter.mp hy).2 x))
    · exact h.back x hx

theorem Tables.Enters.insertRun {E : Nat → RunStatus → Prop} {t t' : Tables} (h : t.Enters E t')
    (row : JobRun) (hrow : row.status = .pending) :
    t.Enters E ((Write.insertRun row).apply t') := by
  constructor
  · intro r hr
    obtain ⟨r', hr', hrr'⟩ := h.forth r hr
    exact ⟨r', List.mem_append_left _ hr', hrr'⟩
  · intro r' hr'
    rcases List.mem_append.mp hr' with hr' | hr'
    · exact h.back r' hr'
    · rw [List.mem_singleton.mp hr']
      exact .inr (.inl hrow)

/-- A session that has kept to `E`, now and at its savepoint. -/
def Session.Entered (E : Nat → RunStatus → Prop) (t : Tables) (ses : Session) : Prop :=
  t.Enters E (ses.view t) ∧
    ∀ ws held, ses.saved = some (ws, held) → t.Enters E (Write.applyAll ws t)

theorem exec_entered {E : Nat → RunStatus → Prop} {pick : Nat → Bool} {others : List Session}
    {t : Tables} (s : Stmt) (d : Seq × Session) (r : Reply s) (d' : Seq × Session)
    (hs : s.Enters E) (h : d.2.Entered E t) (hexec : s.exec pick others t d = some (r, d')) :
    d'.2.Entered E t := by
  obtain ⟨seq, ses⟩ := d
  obtain ⟨hnow, hsaved⟩ := h
  dsimp only at hnow hsaved
  cases s with
  | updateRuns p set =>
    simp only [Stmt.exec] at hexec
    split at hexec
    · cases hexec
    · cases hexec
      refine ⟨?_, hsaved⟩
      have := hnow.updateRuns hs
      simpa [Session.view, Session.write] using this
  | insertRun row =>
    simp only [Stmt.exec] at hexec
    split at hexec
    · cases hexec
    · split at hexec
      · cases hexec
        exact ⟨hnow, hsaved⟩
      · cases hexec
        refine ⟨?_, hsaved⟩
        have := hnow.insertRun (storedRun seq ses.start row) hs
        simpa [Session.view, Session.write, storedRun] using this
  | insertJob row =>
    simp only [Stmt.exec] at hexec
    split at hexec
    · cases hexec
    · split at hexec <;> cases hexec
      · exact ⟨hnow, hsaved⟩
      · exact ⟨hnow.of_runs (by simp [Session.view, Session.write, Write.apply]), hsaved⟩
  | updateJobs p set | updateEvents p set =>
    simp only [Stmt.exec] at hexec
    split at hexec
    · cases hexec
    · cases hexec
      exact ⟨hnow.of_runs (by simp [Session.view, Session.write, Write.apply]), hsaved⟩
  | insertEvent row =>
    cases hexec
    exact ⟨hnow.of_runs (by simp [Session.view, Session.write, Write.apply]), hsaved⟩
  | advisoryLock key =>
    simp only [Stmt.exec] at hexec
    split at hexec
    · cases hexec
    · cases hexec
      exact ⟨hnow, hsaved⟩
  | savepoint =>
    cases hexec
    refine ⟨hnow, fun ws held hws => ?_⟩
    simp only [Option.some.injEq, Prod.mk.injEq] at hws
    obtain ⟨rfl, rfl⟩ := hws
    exact hnow
  | rollbackTo =>
    simp only [Stmt.exec] at hexec
    split at hexec
    · cases hexec
      exact ⟨hnow, hsaved⟩
    · next ws held hws =>
      cases hexec
      exact ⟨hsaved ws held hws, by simp⟩
  | release =>
    cases hexec
    exact ⟨hnow, by simp⟩
  | selectJobs p | loadJobs p | ancestors a b | selectRuns p | lockRuns p n | selectEvents p n =>
    cases hexec
    exact ⟨hnow, hsaved⟩

/-- A transaction that is alone. -/
theorem alone_enters {E : Nat → RunStatus → Prop} {α : Type} {t : Txn α}
    (ht : t.Issues (Stmt.Enters E)) {start : Int} {pick : Nat → Bool} {x y : Db}
    {res : Except Err α} (h : x.alone start pick t = some (res, y)) :
    x.tables.Enters E y.tables := by
  unfold Db.alone at h
  split at h
  · cases h
  · next a seq ses hrun =>
    cases h
    have hstep : ∀ s (d : Seq × Session) r d', Stmt.Enters E s → d.2.Entered E x.tables →
        s.exec pick [] x.tables d = some (r, d') → d'.2.Entered E x.tables :=
      exec_entered
    exact (ht.run hstep ⟨.refl E _, by simp⟩ hrun).1
  · cases h
    exact .refl E _

/-! ### The transactions -/

theorem Outcome.status_ne_running (outcome : Outcome) : outcome.status ≠ .running := by
  cases outcome with
  | returned res =>
    simp only [Outcome.status]
    split
    · simp
    · split <;> simp
  | raised message => simp [Outcome.status]
  | invalid message eventData => simp [Outcome.status]

section Transactions

variable {E : Nat → RunStatus → Prop}

/-- A transaction enters the statuses that its updates enter. -/
theorem enters_of_runs {α : Type} {U : (JobRun → Bool) → (JobRun → JobRun) → Prop} {t : Txn α}
    (h : t.Issues (Stmt.Runs True U)) (hU : ∀ p set, U p set → (Stmt.updateRuns p set).Enters E) :
    t.Issues (Stmt.Enters E) := by
  refine h.mono fun s hs => ?_
  cases s with
  | updateRuns p set => exact hU p set hs
  | insertRun row =>
    obtain ⟨-, job, runAt, wait, rfl⟩ := hs
    rfl
  | _ => trivial

/-- An update that gives every run one status. -/
theorem enters_status {p : JobRun → Bool} {set : JobRun → JobRun} {status : RunStatus}
    (hsame : ∀ r : JobRun, r.SameRun (set r)) (hset : ∀ r, (set r).status = status)
    (hE : ∀ r, p r = true → E r.runId status) : (Stmt.updateRuns p set).Enters E :=
  ⟨hsame, .inr fun r hr r' => hset r' ▸ hE r hr⟩

theorem createJob_issues (libs : Libs) (now : Int) (args : CreateArgs) :
    (createJob libs now args).Issues (Stmt.Enters E) :=
  enters_of_runs (U := fun _ _ => False) (createJob_runs trivial libs now args) fun _ _ => False.elim

theorem pollOnce_issues (libs : Libs) (now : Int) (depth batchSize : Nat) :
    (pollOnce libs now depth batchSize).Issues (Stmt.Enters E) :=
  enters_of_runs (U := fun _ _ => False)
    ((pollOnce_continues (I := True) trivial libs now depth batchSize).mono fun _ h => h.runs)
    fun _ _ => False.elim

theorem cancelJob_issues (now : Int) (depth : Nat) (userId : String) (jobId : Nat)
    (hE : ∀ id, E id .cancelled) : (cancelJob now depth userId jobId).Issues (Stmt.Enters E) := by
  refine enters_of_runs (cancelJob_runs now depth userId jobId (U := fun _ set => set = JobRun.flip)
    fun _ => rfl) ?_
  rintro p _ rfl
  exact enters_status (fun r => ⟨rfl, rfl, rfl, rfl, rfl⟩) (fun _ => rfl) fun r _ => hE r.runId

theorem claimAndPublish_issues (now : Int) (batchSize : Nat) (hE : ∀ id, E id .queued) :
    (claimAndPublish now batchSize).Issues (Stmt.Enters E) := by
  refine enters_of_runs (claimAndPublish_runs now batchSize (U := fun _ set => set = JobRun.queue now)
    fun _ => rfl) ?_
  rintro p _ rfl
  exact enters_status (fun r => ⟨rfl, rfl, rfl, rfl, rfl⟩) (fun _ => rfl) fun r _ => hE r.runId

theorem sweepDlqRetrying_issues (now grace : Int) (batchSize : Nat) (hE : ∀ id, E id .failed) :
    (sweepDlqRetrying now grace batchSize).Issues (Stmt.Enters E) := by
  refine enters_of_runs (sweepDlqRetrying_runs now grace batchSize
    (U := fun _ set => set = JobRun.fail now "exceeded_max_receive (likely DLQ)") fun _ => rfl) ?_
  rintro p _ rfl
  exact enters_status (fun r => ⟨rfl, rfl, rfl, rfl, rfl⟩) (fun _ => rfl) fun r _ => hE r.runId

theorem sweepQueuedStuck_issues (now now' grace : Int) (batchSize : Nat) (sent : Nat → Bool) :
    (sweepQueuedStuck now now' grace batchSize sent).Issues (Stmt.Enters E) := by
  refine enters_of_runs (sweepQueuedStuck_runs now now' grace batchSize sent
    (U := fun _ set => set = fun r => { r with updatedAt := now' }) fun _ => rfl) ?_
  rintro p _ rfl
  exact ⟨fun r => ⟨rfl, rfl, rfl, rfl, rfl⟩, .inl fun _ => rfl⟩

theorem sweepRunningOrphan_issues (registry : String → Option ActionHandler) (now now' grace : Int)
    (batchSize : Nat) (hqueued : ∀ id, E id .queued) (hfailed : ∀ id, E id .failed) :
    (sweepRunningOrphan registry now now' grace batchSize).Issues (Stmt.Enters E) := by
  refine enters_of_runs (sweepRunningOrphan_runs registry now now' grace batchSize
    (U := fun _ set => set = JobRun.queue now' ∨ set = JobRun.fail now' runningOrphanMessage)
    (fun _ => .inl rfl) fun _ => .inr rfl) ?_
  rintro p _ (rfl | rfl)
  · exact enters_status (fun r => ⟨rfl, rfl, rfl, rfl, rfl⟩) (fun _ => rfl) fun r _ => hqueued r.runId
  · exact enters_status (fun r => ⟨rfl, rfl, rfl, rfl, rfl⟩) (fun _ => rfl) fun r _ => hfailed r.runId

theorem claimTxn_issues (now : Int) {runId : Nat} (jobId : Nat) (hE : E runId .running) :
    (claimTxn now runId jobId).Issues (Stmt.Enters E) := by
  refine enters_of_runs (claimTxn_runs now jobId (U := fun p set =>
    (∀ r, p r = true → r.runId = runId) ∧ set = JobRun.start now) ⟨fun r hr => ?_, rfl⟩) ?_
  · simp only [Bool.and_eq_true, beq_iff_eq] at hr
    exact hr.1
  · rintro p _ ⟨hp, rfl⟩
    exact enters_status (fun r => ⟨rfl, rfl, rfl, rfl, rfl⟩) (fun _ => rfl) fun r hr => hp r hr ▸ hE

theorem finishTxn_issues (now : Int) {runId : Nat} (jobId : Nat) (outcome : Outcome)
    (hE : E runId outcome.status) :
    (finishTxn now runId jobId outcome).Issues (Stmt.Enters E) := by
  refine enters_of_runs (finishTxn_runs now jobId outcome (U := fun p set =>
    (∀ r, p r = true → r.runId = runId) ∧ set = outcome.write now) ⟨fun r hr => ?_, rfl⟩) ?_
  · exact beq_iff_eq.mp hr
  · rintro p _ ⟨hp, rfl⟩
    exact enters_status (Outcome.write_sameRun now outcome) (Outcome.write_status now outcome)
      fun r hr => hp r hr ▸ hE

theorem bumpHeartbeatAt_issues (now : Int) (runId : Nat) :
    (bumpHeartbeatAt now runId).Issues (Stmt.Enters E) := by
  refine enters_of_runs (bumpHeartbeatAt_runs now runId
    (U := fun _ set => set = fun r => { r with heartbeatAt := some now }) rfl) ?_
  rintro p _ rfl
  exact ⟨fun _ => ⟨rfl, rfl, rfl, rfl, rfl⟩, .inl fun _ => rfl⟩

end Transactions

end TaskScheduler
