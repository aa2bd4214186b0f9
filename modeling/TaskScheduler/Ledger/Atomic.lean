import TaskScheduler.Ledger.Transactions

/-! The system whose transactions run at once: each step is a path of changes of the ledger, and
every live worker holds a run that is RUNNING. -/

namespace TaskScheduler

open Lib

/-- The sequences only grow. -/
theorem exec_seq_le {pick : Nat → Bool} {others : List Session} {committed : Tables} (s : Stmt)
    (d : Seq × Session) (r : Reply s) (d' : Seq × Session)
    (h : s.exec pick others committed d = some (r, d')) : d.1.le d'.1 := by
  obtain ⟨seq, ses⟩ := d
  cases s with
  | insertJob row =>
    simp only [Stmt.exec] at h
    split at h
    · cases h
    · split at h <;> cases h <;> exact ⟨Nat.le_succ _, le_rfl, le_rfl⟩
  | insertRun row =>
    simp only [Stmt.exec] at h
    split at h
    · cases h
    · split at h <;> cases h <;> exact ⟨le_rfl, Nat.le_succ _, le_rfl⟩
  | insertEvent row =>
    cases h
    exact ⟨le_rfl, le_rfl, Nat.le_succ _⟩
  | updateJobs p set | updateRuns p set | updateEvents p set | advisoryLock key =>
    simp only [Stmt.exec] at h
    split at h
    · cases h
    · cases h
      exact seq.le_refl
  | rollbackTo =>
    simp only [Stmt.exec] at h
    split at h <;> cases h <;> exact seq.le_refl
  | _ =>
    cases h
    exact seq.le_refl

theorem run_seq_le {α : Type} {pick : Nat → Bool} {others : List Session} {committed : Tables}
    (t : Txn α) (d : Seq × Session) {res : Except Err α} {d' : Seq × Session}
    (h : t.run (Stmt.exec pick others committed) d = some (res, d')) : d.1.le d'.1 := by
  induction t generalizing d with
  | ret a | raise e =>
    simp only [Program.run, Option.some.injEq, Prod.mk.injEq] at h
    obtain ⟨-, rfl⟩ := h
    exact Seq.le_refl _
  | op s k ih =>
    simp only [Program.run, Option.bind_eq_some_iff] at h
    obtain ⟨⟨r, d₁⟩, hexec, hrest⟩ := h
    exact Seq.le_trans (exec_seq_le s d r d₁ hexec) (ih r d₁ hrest)

/-- A run that is RUNNING stays so, unless the history may end it. -/
theorem Change.running {m : Mode} {libs : Libs} {L L' : Ledger} (hc : Change m libs L L')
    (hk : Coherent L.tables L.seq) {runId jobId : Nat} (hends : ¬m.ends runId)
    (h : ∃ r ∈ L.tables.runs, r.runId = runId ∧ r.jobId = jobId ∧ r.status = .running) :
    ∃ r ∈ L'.tables.runs, r.runId = runId ∧ r.jobId = jobId ∧ r.status = .running := by
  obtain ⟨x, hx, rfl, rfl, hs⟩ := h
  cases hc with
  | spawn hjob hsame hactive hidle hclash hcause =>
    exact ⟨x, List.mem_append_left _ hx, rfl, rfl, hs⟩
  | @move _ r set _ _ hdue hr hset htrans hends' =>
    refine ⟨x, mem_setRun_of_ne hx fun heq => ?_, rfl, rfl, hs⟩
    have := hk.run_eq hx hr heq
    subst this
    exact hends (hends' hs)
  | @touch r set hr hset hstatus =>
    by_cases heq : x.runId = r.runId
    · have := hk.run_eq hx hr heq
      subst this
      exact ⟨set x, Tables.mem_setRun.mpr ⟨x, hx, if_pos rfl⟩, hset.runId, hset.jobId,
        hstatus.trans hs⟩
    · exact ⟨x, mem_setRun_of_ne hx heq, rfl, rfl, hs⟩
  | _ => exact ⟨x, hx, rfl, rfl, hs⟩

theorem Changes.running {m : Mode} {libs : Libs} {L L' : Ledger} (h : Changes m libs L L')
    (hk : Coherent L.tables L.seq) {runId jobId : Nat} (hends : ¬m.ends runId)
    (hrun : ∃ r ∈ L.tables.runs, r.runId = runId ∧ r.jobId = jobId ∧ r.status = .running) :
    ∃ r ∈ L'.tables.runs, r.runId = runId ∧ r.jobId = jobId ∧ r.status = .running := by
  have := h.invariant (I := fun L => Coherent L.tables L.seq ∧
    ∃ r ∈ L.tables.runs, r.runId = runId ∧ r.jobId = jobId ∧ r.status = .running)
    (fun _ _ hI hc => ⟨hc.coherent hI.1, hc.running hI.1 hends hI.2⟩) ⟨hk, hrun⟩
  exact this.2

namespace Kind

/-- The changes that a transaction may make. -/
def mode (σ : Sys) : Kind → Mode
  | .cancel _ _ _ => ⟨True, False, fun _ => False⟩
  | .deliver _ _ => ⟨False, True, fun _ => False⟩
  | .finish _ runId _ _ => ⟨False, False, fun id => id = runId⟩
  | .sweepC _ _ _ _ => ⟨False, False, fun id => ∀ w ∈ σ.workers, w.1 ≠ id⟩
  | _ => ⟨False, False, fun _ => False⟩

/-- Sweep C takes no run that a live worker holds. -/
def sparesLive (σ : Sys) (pick : Nat → Bool) : Kind → Prop
  | .sweepC now _ grace _ => ∀ r ∈ σ.tables.runs, r.status = .running →
    (r.heartbeatAt.all fun h => decide (h < now - grace)) = true → pick r.runId = true →
    ∀ w ∈ σ.workers, w.1 ≠ r.runId
  | _ => True

end Kind

namespace Sys

def ledger (σ : Sys) : Ledger := ⟨σ.tables, σ.seq, fun _ => False, fun _ => False⟩

/-- Every live worker holds a run that is RUNNING, and no run has two. -/
structure Live (σ : Sys) : Prop where
  nodup : (σ.workers.map (·.1)).Nodup
  running : ∀ w ∈ σ.workers, ∃ r ∈ σ.tables.runs, r.runId = w.1 ∧ r.jobId = w.2 ∧ r.status = .running

/-- A step of the system whose transactions run at once and whose Sweep C takes only runs of crashed
workers. -/
def AtomicOk (σ : Sys) : Act → Prop
  | .atomic k _ pick => k.sparesLive σ pick
  | .crash _ _ => True
  | _ => False

end Sys

/-- What a transaction that runs at once ends with. -/
def Kind.Post (cfg : Config) (σ : Sys) (k : Kind) (won : Bool) (v : View) : Prop :=
  Changes (k.mode σ) cfg.libs σ.ledger (v.ledger (fun _ => False) fun _ => False) ∧
    ∀ now runId jobId, k = .claim now runId jobId → won = true →
      (∃ r ∈ σ.tables.runs, r.runId = runId ∧ r.status.cancellable = true) ∧
      ∃ r ∈ v.tables.runs, r.runId = runId ∧ r.jobId = jobId ∧ r.status = .running

theorem wp_quiet {α : Type} {acc : Account Stmt Reply View} {E : Err → View → Prop} {t : Txn α}
    {v : View} {Q : Bool → View → Prop} (h : t.wp acc E (fun _ v' => Q false v') v) :
    t.quiet.wp acc E Q v := by
  unfold Txn.quiet
  rw [Program.wp_bind]
  exact h

/-- Every transaction is a path of changes. -/
theorem Kind.prog_post {cfg : Config} {σ : Sys} (hk : Coherent σ.tables σ.seq) (hlive : σ.Live)
    {k : Kind} (henabled : k.enabled σ = true) {pick : Nat → Bool} (hspare : k.sparesLive σ pick)
    (start : Int) : ∃ older, Aging older ∧ (k.prog cfg).wp (rowAccount older pick start)
      (fun _ _ => True) (k.Post cfg σ) ⟨σ.tables, σ.seq, none⟩ := by
  have hpath : ∀ m, Changes m cfg.libs σ.ledger
      ((⟨σ.tables, σ.seq, none⟩ : View).ledger (fun _ => False) fun _ => False) := fun _ => .refl
  cases k with
  | create now args =>
    exact ⟨_, eq_aging, wp_quiet (Program.wp_mono (createJob_changes hk args (hpath _))
      fun _ v h => ⟨h, by simp⟩)⟩
  | publish now batchSize =>
    exact ⟨_, settledTo_aging, wp_quiet (Program.wp_mono
      (claimAndPublish_changes hk batchSize (hpath _)) fun _ v h => ⟨h, by simp⟩)⟩
  | claim now runId jobId =>
    simp only [Kind.enabled, List.any_eq_true, Bool.and_eq_true, beq_iff_eq] at henabled
    refine ⟨_, settledTo_aging, Program.wp_mono (claim_changes hk (hpath _) henabled)
      fun won v h => ⟨h.1, ?_⟩⟩
    rintro _ _ _ ⟨⟩ hwon
    exact h.2 hwon
  | finish now runId jobId outcome =>
    simp only [Kind.enabled, decide_eq_true_eq] at henabled
    exact ⟨_, settledTo_aging, wp_quiet (Program.wp_mono
      (finishTxn_changes outcome (hpath _) rfl (hlive.running _ henabled))
      fun _ v h => ⟨h, by simp⟩)⟩
  | heartbeat now runId =>
    exact ⟨_, settledTo_aging, wp_quiet (Program.wp_mono
      (bumpHeartbeatAt_changes runId (hpath _)) fun _ v h => ⟨h, by simp⟩)⟩
  | sweepA now grace batchSize =>
    exact ⟨_, settledTo_aging, wp_quiet (Program.wp_mono
      (sweepDlqRetrying_changes hk grace batchSize (hpath _)) fun _ v h => ⟨h, by simp⟩)⟩
  | sweepB now now' grace batchSize sent =>
    exact ⟨_, settledTo_aging, wp_quiet (Program.wp_mono
      (sweepQueuedStuck_changes hk now' grace batchSize sent (hpath _))
      fun _ v h => ⟨h, by simp⟩)⟩
  | sweepC now now' grace batchSize =>
    exact ⟨_, settledTo_aging, wp_quiet (Program.wp_mono
      (sweepRunningOrphan_changes hk cfg.registry now' grace batchSize
        (hpath (Kind.mode σ (.sweepC now now' grace batchSize))) hspare)
      fun _ v h => ⟨h, by simp⟩)⟩
  | poll now batchSize =>
    exact ⟨_, settledTo_aging, wp_quiet (Program.wp_mono
      (pollOnce_polled hk (hpath _)) fun _ v h => ⟨h.path, by simp⟩)⟩
  | deliver now event =>
    simp only [Kind.enabled, Bool.and_eq_true, List.any_eq_true, decide_eq_true_eq] at henabled
    obtain ⟨hterm, e₀, he₀, heq⟩ := henabled
    refine ⟨_, settledTo_aging, wp_quiet (Program.wp_mono
      (processEvent_processed (hpath _) hk heq.symm he₀ ?_ (.inl trivial))
      fun _ v ⟨_, _, _, _, _, _, h⟩ => ⟨h.path, by simp⟩)⟩
    rw [← heq] at hterm
    exact hterm
  | cancel now userId jobId =>
    exact ⟨_, since_aging, wp_quiet (Program.wp_mono
      (cancelJob_changes hk trivial userId (hpath _)) fun _ v h => ⟨h, by simp⟩)⟩

/-- The ways in which a transaction that runs at once ends: rolled back, or committed. -/
theorem Sys.step_atomic {cfg : Config} {σ σ' : Sys} {k : Kind} {start : Int} {pick : Nat → Bool}
    (h : σ.step cfg (.atomic k start pick) = some σ') :
    k.enabled σ = true ∧
      ((∃ seq, σ.seq.le seq ∧ σ' = { σ with seq := seq, workers := k.taken σ.workers }) ∨
      ∃ won seq ses, (k.prog cfg).run (Stmt.exec pick σ.open_ σ.tables) (σ.seq, { start }) =
          some (.ok won, seq, ses) ∧
        σ' = { σ with
          tables := ses.view σ.tables, seq := seq, workers := k.done won (k.taken σ.workers) }) := by
  simp only [Sys.step] at h
  split at h
  · next henabled =>
    refine ⟨henabled, ?_⟩
    split at h
    · cases h
    · next won seq ses hrun =>
      cases h
      exact .inr ⟨won, seq, ses, hrun, rfl⟩
    · next seq ses hrun =>
      cases h
      exact .inl ⟨seq, run_seq_le _ _ hrun, rfl⟩
  · cases h

theorem Kind.taken_sublist (k : Kind) (ws : List (Nat × Nat)) : (k.taken ws).Sublist ws := by
  cases k with
  | finish now runId jobId outcome => exact List.erase_sublist
  | _ => exact List.Sublist.refl _

/-- A transaction does not end the run of a worker that stays. -/
theorem Kind.not_ends {σ : Sys} (hlive : σ.Live) {k : Kind} (henabled : k.enabled σ = true)
    {w : Nat × Nat} (hw : w ∈ k.taken σ.workers) : ¬(k.mode σ).ends w.1 := by
  cases k with
  | finish now runId jobId outcome =>
    simp only [Kind.enabled, decide_eq_true_eq] at henabled
    obtain ⟨hne, hmem⟩ := (hlive.nodup.of_map).mem_erase_iff.mp hw
    exact fun heq => hne (List.inj_on_of_nodup_map hlive.nodup hmem henabled heq)
  | sweepC now now' grace batchSize =>
    intro h
    exact h w hw rfl
  | _ => exact id

/-- A transaction that runs at once is a path of changes, and the live workers keep their runs. -/
theorem Sys.atomic_changes {cfg : Config} {σ σ' : Sys} {k : Kind} {start : Int} {pick : Nat → Bool}
    (h : σ.step cfg (.atomic k start pick) = some σ') (hk : Coherent σ.tables σ.seq)
    (hlive : σ.Live) (hspare : k.sparesLive σ pick) :
    Changes (k.mode σ) cfg.libs σ.ledger σ'.ledger ∧ σ'.Live := by
  obtain ⟨henabled, ⟨seq, hseq, rfl⟩ | ⟨won, seq, ses, hrun, rfl⟩⟩ := Sys.step_atomic h
  · exact ⟨Relation.ReflTransGen.single (.burn hseq),
      hlive.nodup.sublist ((k.taken_sublist _).map _),
      fun w hw => hlive.running w ((k.taken_sublist _).subset hw)⟩
  · obtain ⟨older, aging, hwp⟩ := @Kind.prog_post cfg σ hk hlive k henabled pick hspare start
    obtain ⟨v, hv, hseq, hpost, hclaim⟩ := run_atomic aging hk.jobs hwp hrun
    have hpath := hpost
    unfold View.ledger at hpath
    rw [hv, hseq] at hpath
    refine ⟨hpath, ?_⟩
    have hnd := hlive.nodup.sublist ((k.taken_sublist σ.workers).map _)
    have hrunning : ∀ w ∈ k.taken σ.workers,
        ∃ r ∈ (ses.view σ.tables).runs, r.runId = w.1 ∧ r.jobId = w.2 ∧ r.status = .running :=
      fun w hw => hpath.running hk (Kind.not_ends hlive henabled hw)
        (hlive.running w ((k.taken_sublist _).subset hw))
    by_cases hwon : ∃ now runId jobId, k = .claim now runId jobId ∧ won = true
    · obtain ⟨now, runId, jobId, rfl, rfl⟩ := hwon
      obtain ⟨⟨r, hr, hid, hcan⟩, hnew⟩ := hclaim now runId jobId rfl rfl
      rw [hv] at hnew
      refine ⟨List.nodup_cons.mpr ⟨fun hin => ?_, hnd⟩, fun w hw => ?_⟩
      · -- a run that can be claimed is not RUNNING, so no live worker holds it
        obtain ⟨w, hw, hwid⟩ := List.mem_map.mp hin
        obtain ⟨r', hr', hid', -, hs'⟩ := hlive.running w hw
        rw [hk.run_eq hr hr' (by rw [hid, hid', hwid]), hs'] at hcan
        cases hcan
      · rcases List.mem_cons.mp hw with rfl | hw
        · exact hnew
        · exact hrunning w hw
    · have hdone : k.done won (k.taken σ.workers) = k.taken σ.workers := by
        cases k with
        | claim now runId jobId =>
          cases won with
          | true => exact absurd ⟨now, runId, jobId, rfl, rfl⟩ hwon
          | false => rfl
        | _ => rfl
      exact ⟨by rw [hdone]; exact hnd, by rw [hdone]; exact hrunning⟩

namespace Sys

/-- What holds of every state of the system whose transactions run at once. -/
structure Base (σ : Sys) : Prop where
  coherent : Coherent σ.tables σ.seq
  live : σ.Live

theorem Base.init : Base {} where
  coherent := by constructor <;> simp [JobKeys.mk]
  live := ⟨by simp, by simp⟩

/-- An invariant of the changes is one of the states reached: it holds between transactions, where
no job owes a settle check and no event is being processed. -/
theorem Reach.changes {cfg : Config} {ok : Sys → Act → Prop} {σ : Sys} (hreach : Reach cfg ok σ)
    (hok : ∀ σ a, ok σ a → σ.AtomicOk a) (M : Mode → Prop)
    (hM : ∀ σ k start pick, ok σ (.atomic k start pick) → M (k.mode σ)) (I : Ledger → Prop)
    (init : I (Sys.ledger {}))
    (change : ∀ m L L', M m → Coherent L.tables L.seq → I L → Change m cfg.libs L L' → I L') :
    σ.Base ∧ I σ.ledger := by
  induction hreach with
  | init => exact ⟨.init, init⟩
  | @step σ σ' a _ ha hstep ih =>
    obtain ⟨hbase, hI⟩ := ih
    cases a with
    | atomic k start pick =>
      obtain ⟨hpath, hlive⟩ :=
        atomic_changes hstep hbase.coherent hbase.live (hok σ _ ha)
      have hend := hpath.invariant (I := fun L => Coherent L.tables L.seq ∧ I L)
        (fun L L' h hc => ⟨hc.coherent h.1, change _ L L' (hM σ k start pick ha) h.1 h.2 hc⟩)
        ⟨hbase.coherent, hI⟩
      exact ⟨⟨hend.1, hlive⟩, hend.2⟩
    | crash runId jobId =>
      cases hstep
      exact ⟨⟨hbase.coherent, hbase.live.nodup.sublist (List.erase_sublist.map _),
        fun w hw => hbase.live.running w (List.mem_of_mem_erase hw)⟩, hI⟩
    | start k at_ | statement i pick | commit i | abort i => exact (hok σ _ ha).elim

end Sys

end TaskScheduler
