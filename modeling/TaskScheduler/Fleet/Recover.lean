import TaskScheduler.Fleet.Ends

/-! No run is wedged: from every reachable state, whatever was lost and whoever has crashed, time, the
watcher, the sweeps and one fresh worker bring a given run to an end. -/

namespace TaskScheduler

open Lib

/-- `DEFAULT_BATCH_SIZE` of the watcher. -/
def watcherBatchSize : Nat := 10

/-- `DEFAULT_BATCH_SIZE` of the reconciler. -/
def reconcilerBatchSize : Nat := 100

/-! ### The rows of a limited select -/

/-- A planner's choice among the rows that match: it leaves a row out only because of the limit. -/
def Fills (pick : Nat → Bool) (p : JobRun → Bool) (limit : Nat) (runs : List JobRun) : Prop :=
  limit ≤ (runs.filter fun r => p r && pick r.runId).length ∨
    ∀ r ∈ runs, p r = true → pick r.runId = true

/-- Any row that matches is in one of the choices. -/
theorem exists_fill {runs : List JobRun} (hnd : (runs.map (·.runId)).Nodup) {p : JobRun → Bool}
    {r : JobRun} (hr : r ∈ runs) (hp : p r = true) {limit : Nat} (hlimit : 0 < limit) :
    ∃ pick, Fills pick p limit runs ∧
      r ∈ (runs.filter fun x => p x && pick x.runId).take limit := by
  -- the row first, then as many others as the limit allows
  let S := (r :: (runs.filter p).erase r).take limit
  have hmatch : r ∈ runs.filter p := List.mem_filter.mpr ⟨hr, hp⟩
  have hndm : (runs.filter p).Nodup := (hnd.of_map _).filter p
  have hperm : (r :: (runs.filter p).erase r).Perm (runs.filter p) :=
    (List.perm_cons_erase hmatch).symm
  have hndS : S.Nodup := (hperm.nodup_iff.mpr hndm).sublist (List.take_sublist _ _)
  have hsub : ∀ x ∈ S, x ∈ runs ∧ p x = true := fun x hx =>
    List.mem_filter.mp (hperm.mem_iff.mp (List.mem_of_mem_take hx))
  have hrS : r ∈ S := by
    obtain ⟨n, rfl⟩ := Nat.exists_eq_succ_of_ne_zero hlimit.ne'
    exact List.mem_cons_self
  let pick : Nat → Bool := fun id => decide (id ∈ S.map (·.runId))
  have hpicked : (runs.filter fun x => p x && pick x.runId).Perm S := by
    refine (List.perm_ext_iff_of_nodup ((hnd.of_map _).filter _) hndS).mpr fun x => ?_
    simp only [List.mem_filter, Bool.and_eq_true, pick, decide_eq_true_eq, List.mem_map]
    constructor
    · rintro ⟨hx, -, y, hy, hid⟩
      rwa [← List.inj_on_of_nodup_map hnd (hsub y hy).1 hx hid]
    · exact fun hx => ⟨(hsub x hx).1, (hsub x hx).2, x, hx, rfl⟩
  have hlen : (runs.filter fun x => p x && pick x.runId).length ≤ limit := by
    rw [hpicked.length_eq]
    exact List.length_take_le _ _
  refine ⟨pick, ?_, by rw [List.take_of_length_le hlen]; exact hpicked.mem_iff.mpr hrS⟩
  rcases le_or_gt limit (r :: (runs.filter p).erase r).length with hfull | hfew
  · refine .inl ?_
    rw [hpicked.length_eq]
    simp only [S, List.length_take]
    omega
  · refine .inr fun x hx hpx => ?_
    have hall : S = r :: (runs.filter p).erase r := List.take_of_length_le hfew.le
    have hxS : x ∈ S := by
      rw [hall]
      exact hperm.mem_iff.mpr (List.mem_filter.mpr ⟨hx, hpx⟩)
    simp only [pick, decide_eq_true_eq]
    exact List.mem_map_of_mem hxS

/-- The runs that the watcher takes. -/
def duePending (now : Int) (r : JobRun) : Bool :=
  r.status == .pending && decide (r.scheduledAt < now + lookahead)

/-- The runs that Sweep A takes. -/
def staleRetrying (now grace : Int) (r : JobRun) : Bool :=
  r.status == .retrying && decide (r.updatedAt < now - grace)

/-- The runs that Sweep B takes. -/
def stuckQueued (now grace : Int) (r : JobRun) : Bool :=
  r.status == .queued && decide (r.updatedAt < now - grace) && decide (r.scheduledAt < now)

/-- The runs that Sweep C takes. -/
def orphanRunning (now grace : Int) (r : JobRun) : Bool :=
  r.status == .running && r.heartbeatAt.all fun h => decide (h < now - grace)

/-! ### The transactions on the rows that they take -/

section

variable (pick : Nat → Bool) (start now now' grace : Int) (batchSize : Nat) {x : Db}

/-- An update of the rows that were taken. -/
theorem runsAre_updateRuns {v : View} {ids : List Nat} {set : JobRun → JobRun} {s : RunStatus}
    (hset : ∀ r : JobRun, (set r).runId = r.runId ∧ (set r).status = s) :
    (v.write (.updateRuns ids set)).tables.RunsAre ids s := by
  intro r' hr' hid
  obtain ⟨r, -, rfl⟩ := List.mem_map.mp hr'
  split
  · exact (hset r).2
  · next hne =>
    rw [if_neg hne] at hid
    exact absurd hid hne

theorem claimAndPublish_ok (keys : JobKeys x.tables.jobs x.seq.jobs) : ∃ runs y,
    x.alone start pick (claimAndPublish now batchSize) = some (.ok runs, y) ∧
    y.tables.RunsAre ((x.lockable pick (duePending now) batchSize).map (·.runId)) .queued := by
  unfold claimAndPublish
  refine Db.alone_lock_ok (p := duePending now) (Q := fun _ t =>
    t.RunsAre ((x.lockable pick (duePending now) batchSize).map (·.runId)) .queued)
    settledTo_aging keys ?_
  split
  · next hempty =>
    rw [List.isEmpty_iff.mp hempty]
    exact fun r _ hid => absurd hid (by simp)
  · rw [Program.wp_bind]
    refine wp_updateRunsIn fun _ => ?_
    rw [Program.wp_bind]
    exact wp_insertEvents_runs (P := fun runs => ∀ r ∈ runs, r.runId ∈ _ → r.status = .queued) _
      (runsAre_updateRuns fun _ => ⟨rfl, rfl⟩)

theorem sweepDlqRetrying_ok (keys : JobKeys x.tables.jobs x.seq.jobs) : ∃ n y,
    x.alone start pick (sweepDlqRetrying now grace batchSize) = some (.ok n, y) ∧
    y.tables.RunsAre ((x.lockable pick (staleRetrying now grace) batchSize).map (·.runId))
      .failed := by
  unfold sweepDlqRetrying
  refine Db.alone_lock_ok (p := staleRetrying now grace) (Q := fun _ t =>
    t.RunsAre ((x.lockable pick (staleRetrying now grace) batchSize).map (·.runId)) .failed)
    settledTo_aging keys ?_
  split
  · next hempty =>
    rw [List.isEmpty_iff.mp hempty]
    exact fun r _ hid => absurd hid (by simp)
  · rw [Program.wp_bind]
    refine wp_updateRunsIn fun _ => ?_
    rw [Program.wp_bind]
    exact wp_insertEvents_runs (P := fun runs => ∀ r ∈ runs, r.runId ∈ _ → r.status = .failed) _
      (runsAre_updateRuns fun _ => ⟨rfl, rfl⟩)

theorem sweepQueuedStuck_ok (keys : JobKeys x.tables.jobs x.seq.jobs) (sent : Nat → Bool) : ∃ y,
    x.alone start pick (sweepQueuedStuck now now' grace batchSize sent) =
      some (.ok (x.lockable pick (stuckQueued now grace) batchSize), y) := by
  have hok : ∃ runs y, x.alone start pick (sweepQueuedStuck now now' grace batchSize sent) =
      some (.ok runs, y) ∧ runs = x.lockable pick (stuckQueued now grace) batchSize := by
    unfold sweepQueuedStuck
    refine Db.alone_lock_ok (p := stuckQueued now grace) (Q := fun runs _ =>
      runs = x.lockable pick (stuckQueued now grace) batchSize) settledTo_aging keys ?_
    rw [Program.wp_bind]
    refine Program.wp_mono (Program.wp_forM (Q := fun _ _ => True) (fun _ _ => True)
      (fun r rs v _ => ?_) (fun _ _ => trivial) _ _ trivial) fun _ _ _ => rfl
    unfold requeueRun
    split
    · simp only [Program.wp_bind, wp_updateRuns, wp_insertEvent]
    · trivial
  obtain ⟨runs, y, hres, rfl⟩ := hok
  exact ⟨y, hres⟩

/-- Sweep C takes its runs out of RUNNING, one at a time. -/
theorem recoverRun_runs {idempotent : Bool} {r : JobRun} {rest : List Nat} {v : View}
    {ids : List Nat} (h : ∀ x ∈ v.tables.runs, x.runId ∈ ids → x.runId ∈ r.runId :: rest ∨
      x.status = .queued ∨ x.status = .failed) :
    (recoverRun now' idempotent r).wp (rowAccount Job.SettledTo pick start) (fun _ _ => False)
      (fun _ v' => ∀ x ∈ v'.tables.runs, x.runId ∈ ids → x.runId ∈ rest ∨
        x.status = .queued ∨ x.status = .failed) v := by
  have hset : ∀ (set : JobRun → JobRun) (s : RunStatus), (∀ x, (set x).runId = x.runId) →
      (∀ x, (set x).status = s) → s = .queued ∨ s = .failed →
      ∀ x ∈ (v.setRun r.runId set).tables.runs, x.runId ∈ ids → x.runId ∈ rest ∨
        x.status = .queued ∨ x.status = .failed := by
    intro set s hid hs hend x' hx' hin
    obtain ⟨x, hx, rfl⟩ := Tables.mem_setRun.mp hx'
    split
    · rw [hs x]
      exact .inr hend
    · next hne =>
      rw [if_neg hne] at hin
      rcases h x hx hin with hmem | hstatus
      · exact .inl ((List.mem_cons.mp hmem).resolve_left hne)
      · exact .inr hstatus
  unfold recoverRun
  split
  · rw [Program.wp_bind]
    refine wp_updateRun fun _ => ?_
    rw [wp_insertEvent]
    exact hset _ _ (fun _ => rfl) (fun _ => rfl) (.inl rfl)
  · rw [Program.wp_bind]
    refine wp_updateRun fun _ => ?_
    simp only [Program.wp_bind, wp_insertEvent, Program.pure_eq]
    exact wp_settleJob_runs (P := fun runs => ∀ x ∈ runs, x.runId ∈ ids → x.runId ∈ rest ∨
      x.status = .queued ∨ x.status = .failed) (hset _ _ (fun _ => rfl) (fun _ => rfl) (.inr rfl))

theorem sweepRunningOrphan_ok (registry : String → Option ActionHandler)
    (keys : JobKeys x.tables.jobs x.seq.jobs) : ∃ runs y,
    x.alone start pick (sweepRunningOrphan registry now now' grace batchSize) =
      some (.ok runs, y) ∧
    ∀ r ∈ y.tables.runs, r.runId ∈ (x.lockable pick (orphanRunning now grace) batchSize).map
      (·.runId) → r.status = .queued ∨ r.status = .failed := by
  unfold sweepRunningOrphan
  refine Db.alone_lock_ok (p := orphanRunning now grace) (Q := fun _ t => ∀ r ∈ t.runs,
    r.runId ∈ (x.lockable pick (orphanRunning now grace) batchSize).map (·.runId) →
      r.status = .queued ∨ r.status = .failed) settledTo_aging keys ?_
  split
  · next hempty =>
    rw [List.isEmpty_iff.mp hempty]
    exact fun r _ hid => absurd hid (by simp)
  · simp only [Program.wp_bind, wp_selectJobs]
    refine Program.wp_forM (fun rest v => ∀ r ∈ v.tables.runs,
      r.runId ∈ (x.lockable pick (orphanRunning now grace) batchSize).map (·.runId) →
        r.runId ∈ rest.map (·.runId) ∨ r.status = .queued ∨ r.status = .failed)
      (fun r rest v h => recoverRun_runs pick start now' h) (fun v h => ?_) _ _ (fun r _ hin => .inl hin)
    exact fun r hr hin => (h r hr hin).resolve_left (by simp)

end

/-! ### Recovery -/

namespace Fleet

variable {set : Settings} {φ φ' : Fleet} {n : Nat} {outcome : Outcome}

/-- The states that steps satisfying `ok` reach from `φ`. -/
inductive Steps (set : Settings) (ok : Fleet → FleetAct → Prop) (φ : Fleet) : Fleet → Prop
  | refl : Steps set ok φ φ
  | step {φ₁ φ₂ : Fleet} {a : FleetAct} : Steps set ok φ φ₁ → ok φ₁ a → φ₁.step set a = some φ₂ →
    Steps set ok φ φ₂

theorem Steps.trans {ok : Fleet → FleetAct → Prop} {φ₁ φ₂ : Fleet} (h : Steps set ok φ φ₁)
    (h' : Steps set ok φ₁ φ₂) : Steps set ok φ φ₂ := by
  induction h' with
  | refl => exact h
  | step _ hok hstep ih => exact ih.step hok hstep

theorem Steps.sound {ok : Fleet → FleetAct → Prop} (h : Steps set ok φ φ') (hφ : φ.Sound) :
    φ'.Sound := by
  induction h with
  | refl => exact hφ
  | step _ _ hstep ih => exact ih.step hstep

/-- Process `i` is a loop of this role whose select, at its reading of the clock, the choice
fills. -/
def Chooses (φ : Fleet) (i : Nat) (role : Role) (pick : Nat → Bool) (p : Int → JobRun → Bool)
    (limit : Nat) : Prop :=
  ∃ now, φ.proc i = some (.ready role now) ∧ Fills pick (p now) limit φ.db.tables.runs

/-- The steps of a recovery: time passes, and processes that are not among the first `n` run the
watcher, the sweeps with sends that go through, or a worker whose action ends with `outcome`. -/
def Recovery (set : Settings) (n : Nat) (outcome : Outcome) (φ : Fleet) : FleetAct → Prop
  | .tick _ | .begin_ _ | .receive _ => True
  | .publish i batchSize pick => n ≤ i ∧ batchSize = watcherBatchSize ∧
    φ.Chooses i .watcher pick duePending batchSize
  | .sweepA i batchSize pick => n ≤ i ∧ batchSize = reconcilerBatchSize ∧
    φ.Chooses i .sweepA pick (staleRetrying · set.dlqGrace) batchSize
  | .sweepB i batchSize pick sent arrives commits => n ≤ i ∧ batchSize = reconcilerBatchSize ∧
    φ.Chooses i .sweepB pick (stuckQueued · set.queuedGrace) batchSize ∧
    (∀ id, sent id = true ∧ arrives id = true) ∧ commits = true
  | .sweepC i batchSize pick => n ≤ i ∧ batchSize = reconcilerBatchSize ∧
    φ.Chooses i .sweepC pick (orphanRunning · set.runningGrace) batchSize
  | .claim i => n ≤ i
  | .finish i o => n ≤ i ∧ o = outcome
  | _ => False

/-- The run `id` has status `s`. -/
def Has (φ : Fleet) (id : Nat) (s : RunStatus) : Prop :=
  ∃ r ∈ φ.db.tables.runs, r.runId = id ∧ r.status = s

/-- Some recovery brings the run `id` to an end. -/
def Recovers (set : Settings) (n : Nat) (outcome : Outcome) (φ : Fleet) (id : Nat) : Prop :=
  ∃ φ' s, Steps set (Recovery set n outcome) φ φ' ∧ φ'.Has id s ∧ s.terminal = true

/-- Time passes, and then a loop begins. -/
def later (φ : Fleet) (d : Nat) (role : Role) : Fleet :=
  launch { φ with clock := φ.clock + d } (.ready role (φ.clock + d))

theorem steps_later (φ : Fleet) (d : Nat) (role : Role) :
    Steps set (Recovery set n outcome) φ (φ.later d role) :=
  (Steps.refl.step (a := .tick d) trivial rfl).step (a := .begin_ role) trivial rfl

theorem proc_launched (φ : Fleet) (q : Proc) : (φ.launch q).proc φ.procs.length = some q := by
  simp [proc, launch]

theorem proc_later (φ : Fleet) (d : Nat) (role : Role) :
    (φ.later d role).proc φ.procs.length = some (.ready role (φ.clock + d)) :=
  proc_launched { φ with clock := φ.clock + d } _

theorem become_length (φ : Fleet) (i : Nat) (q : Option Proc) :
    (φ.become i q).procs.length = φ.procs.length := by
  simp [become]

/-- Enough time. -/
theorem exists_later (φ : Fleet) (bound : Int) : ∃ d : Nat, bound < φ.clock + d :=
  ⟨(bound - φ.clock).toNat + 1, by omega⟩

/-- A process goes on with the result of its transaction. -/
theorem transact_ok {α : Type} {i : Nat} {pick : Nat → Bool} {t : Txn α} {next : α → Option Proc}
    {a : α} {db : Db} (h : φ.alone pick t = some (.ok a, db)) :
    φ.transact i pick t next = some { φ.become i (next a) with db := db } := by
  simp only [transact, h]

/-- A run whose transaction gives a status to it. -/
theorem has_of_set {x y : Db} {E : Nat → RunStatus → Prop} (he : x.tables.Enters E y.tables)
    {r : JobRun} (hr : r ∈ x.tables.runs) {s : RunStatus}
    (hset : ∀ r' ∈ y.tables.runs, r'.runId = r.runId → r'.status = s) :
    ∃ r' ∈ y.tables.runs, r'.runId = r.runId ∧ r'.status = s := by
  obtain ⟨r', hr', hs⟩ := he.forth r hr
  exact ⟨r', hr', hs.runId, hset r' hr' hs.runId⟩

/-- Sweep A fails a RETRYING run once it is stale. -/
theorem recover_retrying (h : φ.Sound) (hn : n ≤ φ.procs.length) {r : JobRun}
    (hr : r ∈ φ.db.tables.runs) (hs : r.status = .retrying) :
    Recovers set n outcome φ r.runId := by
  obtain ⟨d, hd⟩ := exists_later φ (r.updatedAt + set.dlqGrace)
  have hmatch : staleRetrying (φ.clock + d) set.dlqGrace r = true := by
    simp only [staleRetrying, hs, beq_self_eq_true, Bool.true_and, decide_eq_true_eq]
    omega
  obtain ⟨pick, hfill, hin⟩ := exists_fill h.coherent.runs hr hmatch
    (show 0 < reconcilerBatchSize by decide)
  have hproc := proc_later φ d .sweepA
  obtain ⟨k, y, hres, hset⟩ := sweepDlqRetrying_ok pick (φ.later d .sweepA).clock (φ.clock + d)
    set.dlqGrace reconcilerBatchSize h.coherent.jobs
  have henters : φ.db.tables.Enters (fun _ s => s = .failed) y.tables :=
    alone_enters (sweepDlqRetrying_issues (E := fun _ s => s = .failed) _ _ _ fun _ => rfl) hres
  refine ⟨{ (φ.later d .sweepA).become φ.procs.length none with db := y }, .failed,
    (steps_later φ d .sweepA).step (a := .sweepA φ.procs.length reconcilerBatchSize pick)
      ⟨hn, rfl, _, hproc, hfill⟩ ?_, ?_, rfl⟩
  · simp only [Fleet.step, hproc]
    exact transact_ok hres
  · refine has_of_set henters hr fun r' hr' hid => hset r' hr' ?_
    rw [hid]
    exact List.mem_map_of_mem hin

/-- A fresh worker receives a message of a run that can be claimed, and works on it. -/
theorem recover_claimable (h : φ.Sound) (hn : n ≤ φ.procs.length) {r : JobRun}
    (hr : r ∈ φ.db.tables.runs) (hs : r.status.claimable = true) {k : Nat} {m : Message}
    (hm : φ.messages[k]? = some m) (hrun : m.runId = r.runId) (hdead : m.dead = false)
    (hvisible : m.visibleAt ≤ φ.clock) : Recovers set n outcome φ r.runId := by
  have hproc := proc_launched φ (.received m)
  have hreceive : φ.step set (.receive k) = some (φ.launch (.received m)) := by
    simp [Fleet.step, hm, hdead, hvisible]
  -- the claim wins
  have hclaimed : ∃ won y, (φ.launch (.received m)).alone (fun _ => true)
      (claimTxn φ.clock m.runId m.jobId) = some (.ok won, y) ∧
      ((won = true ↔ φ.Claimable m.runId) ∧ (won = true → y.tables.RunsAre [m.runId] .running)) :=
    Db.alone_ok (Q := fun won t => (won = true ↔ φ.Claimable m.runId) ∧
      (won = true → t.RunsAre [m.runId] .running)) eq_aging h.coherent.jobs (claimTxn_ends _ _)
  obtain ⟨won, y, hclaim, hwon, -⟩ := hclaimed
  have htrue : won = true := hwon.mpr ⟨r, hr, hrun.symm, hs⟩
  subst htrue
  let φ₂ : Fleet := { (φ.launch (.received m)).become φ.procs.length (some (.working m)) with db := y }
  have hstep₂ : (φ.launch (.received m)).step set (.claim φ.procs.length) = some φ₂ := by
    simp only [Fleet.step, hproc]
    exact transact_ok hclaim
  have hsteps₂ : Steps set (Recovery set n outcome) φ φ₂ :=
    (Steps.refl.step (a := .receive k) trivial hreceive).step (a := .claim φ.procs.length) hn hstep₂
  have hsound₂ := hsteps₂.sound h
  have hproc₂ : φ₂.proc φ.procs.length = some (.working m) := by
    simp [φ₂, proc, Fleet.become, launch]
  obtain ⟨r₂, hr₂, hrr₂⟩ := (alone_enters (claimTxn_issues (E := fun _ _ => True) _ _ trivial)
    hclaim).forth r hr
  -- the write after the action gives the run the status of the outcome
  have hfinished : ∃ u z, φ₂.alone (fun _ => true) (finishTxn φ₂.clock m.runId m.jobId outcome) =
      some (.ok u, z) ∧ z.tables.RunsAre [m.runId] outcome.status :=
    Db.alone_ok (Q := fun _ t => t.RunsAre [m.runId] outcome.status) settledTo_aging
      hsound₂.coherent.jobs (finishTxn_ends _ _ _)
  obtain ⟨u, z, hfinish, hset⟩ := hfinished
  let φ₃ : Fleet := { φ₂.become φ.procs.length
    (if outcome.retries then none else some (.deleting m)) with db := z }
  have hstep₃ : φ₂.step set (.finish φ.procs.length outcome) = some φ₃ := by
    simp only [Fleet.step, hproc₂]
    exact transact_ok hfinish
  have hsteps₃ : Steps set (Recovery set n outcome) φ φ₃ :=
    hsteps₂.step (a := .finish φ.procs.length outcome) ⟨hn, rfl⟩ hstep₃
  obtain ⟨r₃, hr₃, hrr₃⟩ := (alone_enters (finishTxn_issues (E := fun _ _ => True) _ _ _ trivial)
    hfinish).forth r₂ hr₂
  have hid₃ : r₃.runId = r.runId := hrr₃.runId.trans hrr₂.runId
  have hs₃ : r₃.status = outcome.status :=
    hset r₃ hr₃ (List.mem_singleton.mpr (hid₃.trans hrun.symm))
  cases hre : outcome.retries with
  | false => exact ⟨φ₃, _, hsteps₃, ⟨r₃, hr₃, hid₃, hs₃⟩, outcome.status_ended hre⟩
  | true =>
    -- the action wants a retry: Sweep A fails the run in the end
    have hlen : n ≤ φ₃.procs.length := by
      simp only [φ₃, φ₂, become_length, launch, List.length_append]
      omega
    have hretrying : Recovers set n outcome φ₃ r₃.runId :=
      recover_retrying (hsteps₃.sound h) hlen hr₃ (hs₃.trans (outcome.status_retrying.mpr hre))
    obtain ⟨φ₄, s, hsteps₄, hhas, hend⟩ := hretrying
    exact ⟨φ₄, s, hsteps₃.trans hsteps₄, hid₃ ▸ hhas, hend⟩

/-- A recovery from a state that recovery steps lead to. -/
theorem Recovers.after {id : Nat} (hsteps : Steps set (Recovery set n outcome) φ φ')
    (h : Recovers set n outcome φ' id) : Recovers set n outcome φ id := by
  obtain ⟨φ₁, s, hsteps₁, hhas, hend⟩ := h
  exact ⟨φ₁, s, hsteps.trans hsteps₁, hhas, hend⟩

/-- The message of an entry that was sent. -/
theorem mem_posts {es : List Entry} {e : Entry} (he : e ∈ es) (φ : Fleet) :
    ∃ m ∈ (es.foldl post φ).messages, m.runId = e.runId ∧ m.dead = false ∧
      m.visibleAt = φ.clock + e.delaySeconds * second := by
  have hstay : ∀ (es : List Entry) (φ : Fleet) m, m ∈ φ.messages →
      m ∈ (es.foldl post φ).messages := by
    intro es
    induction es with
    | nil => exact fun _ _ hm => hm
    | cons e es ih => exact fun φ m hm => ih (φ.post e) m (List.mem_append_left _ hm)
  induction es generalizing φ with
  | nil => cases he
  | cons e' es ih =>
    rcases List.mem_cons.mp he with rfl | he
    · exact ⟨_, hstay es (φ.post e) _ (List.mem_append_right _ (List.mem_singleton_self _)), rfl,
        rfl, rfl⟩
    · exact ih he (φ.post e')

/-- Sweep B sends a QUEUED run again, and a fresh worker takes its message. -/
theorem recover_queued (h : φ.Sound) (hn : n ≤ φ.procs.length) {r : JobRun}
    (hr : r ∈ φ.db.tables.runs) (hs : r.status = .queued) :
    Recovers set n outcome φ r.runId := by
  obtain ⟨d, hd⟩ := exists_later φ (max (r.updatedAt + set.queuedGrace) r.scheduledAt)
  have hmatch : stuckQueued (φ.clock + d) set.queuedGrace r = true := by
    simp only [stuckQueued, hs, beq_self_eq_true, Bool.true_and, Bool.and_eq_true,
      decide_eq_true_eq]
    omega
  obtain ⟨pick, hfill, hin⟩ := exists_fill h.coherent.runs hr hmatch
    (show 0 < reconcilerBatchSize by decide)
  have hproc := proc_later φ d .sweepB
  obtain ⟨y, hres⟩ := sweepQueuedStuck_ok pick (φ.later d .sweepB).clock (φ.clock + d)
    (φ.later d .sweepB).clock set.queuedGrace reconcilerBatchSize h.coherent.jobs fun _ => true
  have henters : φ.db.tables.Enters (fun _ _ => False) y.tables :=
    alone_enters (sweepQueuedStuck_issues _ _ _ _ _) hres
  let rows := φ.db.lockable pick (stuckQueued (φ.clock + d) set.queuedGrace) reconcilerBatchSize
  let φ₁ : Fleet := (φ.later d .sweepB).become φ.procs.length none
  let φ₂ : Fleet := { (rows.map entryNow).foldl post φ₁ with db := y }
  have hstep₂ : (φ.later d .sweepB).step set (.sweepB φ.procs.length reconcilerBatchSize pick
      (fun _ => true) (fun _ => true) true) = some φ₂ := by
    have halone : (φ.later d .sweepB).alone pick (sweepQueuedStuck (φ.clock + d)
        (φ.later d .sweepB).clock set.queuedGrace reconcilerBatchSize fun _ => true) =
        some (.ok rows, y) := hres
    simp only [Fleet.step, hproc, halone, List.filter_true, if_true, φ₂, φ₁]
  have hsteps₂ : Steps set (Recovery set n outcome) φ φ₂ :=
    (steps_later φ d .sweepB).step (a := .sweepB φ.procs.length reconcilerBatchSize pick
      (fun _ => true) (fun _ => true) true)
      ⟨hn, rfl, ⟨_, hproc, hfill⟩, fun _ => ⟨rfl, rfl⟩, rfl⟩ hstep₂
  obtain ⟨hdb, hclock, hprocs⟩ := posts_same (rows.map entryNow) φ₁
  -- the message of the run is in the queue, and visible
  obtain ⟨m, hm, hrun, hdead, hat⟩ := mem_posts (List.mem_map_of_mem (f := entryNow) hin) φ₁
  obtain ⟨k, hk⟩ := List.mem_iff_getElem?.mp hm
  have hvisible : m.visibleAt ≤ φ₂.clock := by
    simp only [φ₂, hclock, hat, entryNow]
    omega
  have hlen : n ≤ φ₂.procs.length := by
    have hsame : φ₂.procs = φ₁.procs := hprocs
    rw [hsame]
    simp only [φ₁, become_length, later, launch, List.length_append]
    omega
  obtain ⟨r₂, hr₂, hrr₂⟩ := henters.forth r hr
  have hs₂ : r₂.status.claimable = true := by
    rcases henters.back r₂ hr₂ with ⟨r₀, hr₀, hr₀₂, heq⟩ | hpending | hfalse
    · rw [h.coherent.run_eq hr₀ hr (hr₀₂.runId.symm.trans hrr₂.runId), hs] at heq
      rw [heq]
      rfl
    · rw [hpending]
      rfl
    · exact hfalse.elim
  have hclaim : Recovers set n outcome φ₂ r₂.runId :=
    recover_claimable (hsteps₂.sound h) hlen hr₂ hs₂ hk (hrun.trans hrr₂.runId.symm) hdead hvisible
  exact (hrr₂.runId ▸ hclaim).after hsteps₂

/-- The watcher publishes a PENDING run once it is due. -/
theorem recover_pending (h : φ.Sound) (hn : n ≤ φ.procs.length) {r : JobRun}
    (hr : r ∈ φ.db.tables.runs) (hs : r.status = .pending) :
    Recovers set n outcome φ r.runId := by
  obtain ⟨d, hd⟩ := exists_later φ r.scheduledAt
  have hmatch : duePending (φ.clock + d) r = true := by
    simp only [duePending, hs, beq_self_eq_true, Bool.true_and, decide_eq_true_eq]
    unfold lookahead second
    omega
  obtain ⟨pick, hfill, hin⟩ := exists_fill h.coherent.runs hr hmatch
    (show 0 < watcherBatchSize by decide)
  have hproc := proc_later φ d .watcher
  obtain ⟨runs, y, hres, hset⟩ := claimAndPublish_ok pick (φ.later d .watcher).clock (φ.clock + d)
    watcherBatchSize h.coherent.jobs
  have henters : φ.db.tables.Enters (fun _ s => s = .queued) y.tables :=
    alone_enters (claimAndPublish_issues (E := fun _ s => s = .queued) _ _ fun _ => rfl) hres
  let φ₁ : Fleet := { (φ.later d .watcher).become φ.procs.length
    (some (.sending (entries (φ.clock + d) runs))) with db := y }
  have hstep₁ : (φ.later d .watcher).step set
      (.publish φ.procs.length watcherBatchSize pick) = some φ₁ := by
    simp only [Fleet.step, hproc]
    exact transact_ok hres
  have hsteps₁ : Steps set (Recovery set n outcome) φ φ₁ :=
    (steps_later φ d .watcher).step (a := .publish φ.procs.length watcherBatchSize pick)
      ⟨hn, rfl, _, hproc, hfill⟩ hstep₁
  have hlen : n ≤ φ₁.procs.length := by
    simp only [φ₁, become_length, later, launch, List.length_append]
    omega
  obtain ⟨r₁, hr₁, hid₁, hs₁⟩ := has_of_set henters hr fun r' hr' hid => hset r' hr' (by
    rw [hid]
    exact List.mem_map_of_mem hin)
  have hqueued : Recovers set n outcome φ₁ r₁.runId :=
    recover_queued (hsteps₁.sound h) hlen hr₁ hs₁
  exact (hid₁ ▸ hqueued).after hsteps₁

/-- Sweep C fails a RUNNING run whose lease is stale, or queues it again. -/
theorem recover_running (h : φ.Sound) (hn : n ≤ φ.procs.length) {r : JobRun}
    (hr : r ∈ φ.db.tables.runs) (hs : r.status = .running) :
    Recovers set n outcome φ r.runId := by
  obtain ⟨d, hd⟩ := exists_later φ (r.heartbeatAt.getD 0 + set.runningGrace)
  have hmatch : orphanRunning (φ.clock + d) set.runningGrace r = true := by
    simp only [orphanRunning, hs, beq_self_eq_true, Bool.true_and]
    cases hbeat : r.heartbeatAt with
    | none => rfl
    | some at_ =>
      rw [hbeat, Option.getD_some] at hd
      simp only [Option.all_some, decide_eq_true_eq]
      omega
  obtain ⟨pick, hfill, hin⟩ := exists_fill h.coherent.runs hr hmatch
    (show 0 < reconcilerBatchSize by decide)
  have hproc := proc_later φ d .sweepC
  obtain ⟨runs, y, hres, hset⟩ := sweepRunningOrphan_ok pick (φ.later d .sweepC).clock
    (φ.clock + d) (φ.later d .sweepC).clock set.runningGrace reconcilerBatchSize set.cfg.registry
    h.coherent.jobs
  have henters : φ.db.tables.Enters (fun _ _ => True) y.tables :=
    alone_enters (sweepRunningOrphan_issues _ _ _ _ _ (fun _ => trivial) fun _ => trivial) hres
  let φ₁ : Fleet := { (φ.later d .sweepC).become φ.procs.length
    (some (.sending (runs.map entryNow))) with db := y }
  have hstep₁ : (φ.later d .sweepC).step set
      (.sweepC φ.procs.length reconcilerBatchSize pick) = some φ₁ := by
    simp only [Fleet.step, hproc]
    exact transact_ok hres
  have hsteps₁ : Steps set (Recovery set n outcome) φ φ₁ :=
    (steps_later φ d .sweepC).step (a := .sweepC φ.procs.length reconcilerBatchSize pick)
      ⟨hn, rfl, _, hproc, hfill⟩ hstep₁
  have hlen : n ≤ φ₁.procs.length := by
    simp only [φ₁, become_length, later, launch, List.length_append]
    omega
  obtain ⟨r₁, hr₁, hrr₁⟩ := henters.forth r hr
  rcases hset r₁ hr₁ (hrr₁.runId ▸ List.mem_map_of_mem hin) with hqueued | hfailed
  · have hagain : Recovers set n outcome φ₁ r₁.runId :=
      recover_queued (hsteps₁.sound h) hlen hr₁ hqueued
    exact (hrr₁.runId ▸ hagain).after hsteps₁
  · exact ⟨φ₁, .failed, hsteps₁, ⟨r₁, hr₁, hrr₁.runId, hfailed⟩, rfl⟩

/-- No run is wedged: from every reachable state, time, the watcher, the sweeps and a fresh worker,
whatever its action ends with, bring every run that has not ended to SUCCEEDED, FAILED or
CANCELLED. -/
theorem run_recovers {ok : Fleet → FleetAct → Prop} (hreach : Reach set ok φ) {r : JobRun}
    (hr : r ∈ φ.db.tables.runs) (hex : r.status.executing = true) (outcome : Outcome) :
    ∃ φ', Steps set (Recovery set φ.procs.length outcome) φ φ' ∧
      ∃ r' ∈ φ'.db.tables.runs, r'.runId = r.runId ∧ r'.status.terminal = true := by
  have hsound := hreach.sound
  have hrecovers : Recovers set φ.procs.length outcome φ r.runId := by
    cases hs : r.status with
    | pending => exact recover_pending hsound le_rfl hr hs
    | queued => exact recover_queued hsound le_rfl hr hs
    | running => exact recover_running hsound le_rfl hr hs
    | retrying => exact recover_retrying hsound le_rfl hr hs
    | succeeded | failed | cancelled =>
      rw [hs] at hex
      cases hex
  obtain ⟨φ', s, hsteps, ⟨r', hr', hid, hs⟩, hend⟩ := hrecovers
  exact ⟨φ', hsteps, r', hr', hid, hs ▸ hend⟩

/-- A worker claims a run and crashes, with its message lost. -/
def orphanRun : List FleetAct :=
  [.other (.create 0 (.echo none none none)) fun _ => true, .begin_ .watcher,
    .publish 0 10 fun _ => true, .send 0 true, .receive 0, .claim 1, .crash 1, .lose 0]

theorem orphanRun_recovers : ∃ φ, runActs .default {} orphanRun = some φ ∧ φ.messages = [] ∧
    ∃ r ∈ φ.db.tables.runs, r.status = .running ∧
    ∃ φ', Steps .default (Recovery .default φ.procs.length .success) φ φ' ∧
      ∃ r' ∈ φ'.db.tables.runs, r'.runId = r.runId ∧ r'.status.terminal = true := by
  have hrun : (runActs .default {} orphanRun).map (fun φ => decide
      (φ.messages = [] ∧ ∃ r ∈ φ.db.tables.runs, r.status = .running)) = some true := by
    decide +kernel
  obtain ⟨φ, hφ, hend⟩ := Option.map_eq_some_iff.mp hrun
  obtain ⟨hnone, r, hr, hs⟩ := of_decide_eq_true hend
  have hreach : Reach .default (fun _ _ => True) φ :=
    (Reach.init 0).runActs (fun _ _ _ => trivial) hφ
  exact ⟨φ, hφ, hnone, r, hr, hs, run_recovers hreach hr (hs ▸ rfl) .success⟩

end Fleet

end TaskScheduler
