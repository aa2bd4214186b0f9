import TaskScheduler.Ledger.Consumer
import TaskScheduler.System

/-! Every transaction that runs at once is a path of changes of the ledger. -/

namespace TaskScheduler

open Lib

/-! ### Moves of runs -/

def View.setRun (v : View) (id : Nat) (set : JobRun → JobRun) : View :=
  { v with tables := v.tables.setRun id set }

section Moves

variable {older : Job → Job → Prop} {pick : Nat → Bool} {start : Int} {E : Err → View → Prop}
  {v : View} {m : Mode} {libs : Libs} {L₀ : Ledger} {due spent : Nat → Prop}

theorem wp_updateRun {Q : List Nat → View → Prop} {id : Nat} {set : JobRun → JobRun}
    (h : ∀ ids, Q ids (v.setRun id set)) :
    (Txn.updateRuns (fun r => r.runId == id) set).wp (rowAccount older pick start) E Q v := by
  rw [wp_updateRuns]
  have : v.write (.updateRuns (v.runIds fun r => r.runId == id) set) = v.setRun id set := by
    simp only [View.write, View.runIds, updateRuns_byKey, View.setRun]
  rw [this]
  exact h _

theorem wp_updateRunsIn {Q : List Nat → View → Prop} {ids : List Nat} {set : JobRun → JobRun}
    (h : ∀ res, Q res (v.write (.updateRuns ids set))) :
    (Txn.updateRuns (fun r => decide (r.runId ∈ ids)) set).wp (rowAccount older pick start) E Q
      v := by
  rw [wp_updateRuns]
  have : v.write (.updateRuns (v.runIds fun r => decide (r.runId ∈ ids)) set) =
      v.write (.updateRuns ids set) := by
    simp only [View.write, Write.apply, View.runIds, View.mk.injEq, Tables.mk.injEq, true_and,
      and_true]
    refine List.map_congr_left fun r hr => if_congr ?_ rfl rfl
    simp only [List.mem_map, List.mem_filter, decide_eq_true_eq]
    constructor
    · rintro ⟨x, ⟨-, hx⟩, heq⟩
      exact heq ▸ hx
    · exact fun hin => ⟨r, ⟨hr, hin⟩, rfl⟩
  rw [this]
  exact h _

/-- One run moves, and its event is written. -/
theorem move_changes (start : Int) (set : JobRun → JobRun) (data : Option EventData)
    (hpath : Changes m libs L₀ (v.ledger due spent)) {r : JobRun} {type : EventType}
    (hdue : m.cancels ∨ ∀ id, ¬due id) (hr : r ∈ v.tables.runs) (hset : r.SameRun (set r))
    (htrans : Transition r.status (set r).status type)
    (hends : r.status = .running → m.ends r.runId) :
    Changes m libs L₀ (((v.setRun r.runId set).log start
      (.new r.runId r.jobId type (some r.status) (some (set r).status) data)).ledger due spent) :=
  hpath.tail (.move hdue hr hset htrans hends)

/-- A run other than the one that moves stays in the table. -/
theorem mem_setRun_of_ne {t : Tables} {id : Nat} {set : JobRun → JobRun} {r : JobRun}
    (hr : r ∈ t.runs) (hne : r.runId ≠ id) : r ∈ (t.setRun id set).runs :=
  Tables.mem_setRun.mpr ⟨r, hr, if_neg hne⟩

/-- A batch of runs moves at once, and then their events are written one by one.  The induction is
on the runs still to be recorded; the moves of different runs commute. -/
theorem wp_moveAll (hk : Coherent L₀.tables L₀.seq) (set : JobRun → JobRun) (type : EventType)
    (data : JobRun → Option EventData) {event : JobRun → RunEvent}
    (hdue : m.cancels ∨ ∀ id, ¬due id) (rs : List JobRun)
    (hpath : Changes m libs L₀ (v.ledger due spent)) (hnd : (rs.map (·.runId)).Nodup)
    (hrs : ∀ r ∈ rs, r ∈ v.tables.runs ∧ r.SameRun (set r) ∧
      Transition r.status (set r).status type ∧ (r.status = .running → m.ends r.runId) ∧
      event r = .new r.runId r.jobId type (some r.status) (some (set r).status) (data r)) :
    (rs.forM fun r => Txn.insertEvent (event r)).wp (rowAccount older pick start) E
      (fun _ v' => Changes m libs L₀ (v'.ledger due spent))
      (v.write (.updateRuns (rs.map (·.runId)) set)) := by
  induction rs generalizing v with
  | nil =>
    have : v.write (.updateRuns [] set) = v := by simp [View.write, Write.apply]
    simpa only [List.map_nil, this, Program.forM_nil, Program.wp_ret] using hpath
  | cons r rs ih =>
    obtain ⟨hr, hset, htrans, hends, hevent⟩ := hrs r List.mem_cons_self
    rw [List.map_cons, List.nodup_cons] at hnd
    have keys := hpath.coherent hk
    have hmove := move_changes start set (data r) hpath hdue hr hset htrans hends
    have hcomm : (v.write (.updateRuns ((r :: rs).map (·.runId)) set)).log start (event r) =
        View.write ((v.setRun r.runId set).log start (event r))
          (.updateRuns (rs.map (·.runId)) set) := by
      simp only [View.log, View.write, View.setRun, View.nextEvent, Write.apply, Tables.setRun,
        List.map_map, List.map_cons, View.mk.injEq, Tables.mk.injEq, true_and, and_true]
      refine List.map_congr_left fun x hx => ?_
      simp only [Function.comp_apply, List.mem_cons]
      by_cases hxr : x.runId = r.runId
      · have : (set x).runId ∉ rs.map (·.runId) := by
          rw [keys.run_eq hx hr hxr, hset.runId]
          exact hnd.1
        rw [if_pos (.inl hxr), if_pos hxr, if_neg this]
      · simp only [hxr, false_or, if_false]
    rw [Program.forM_cons, Program.wp_bind, wp_insertEvent]
    change (rs.forM fun r => Txn.insertEvent (event r)).wp _ _ _
      ((v.write (.updateRuns ((r :: rs).map (·.runId)) set)).log start (event r))
    rw [hcomm, hevent]
    refine ih hmove hnd.2 fun x hx => ?_
    obtain ⟨hxr, hrest⟩ := hrs x (List.mem_cons_of_mem _ hx)
    refine ⟨mem_setRun_of_ne hxr fun heq => hnd.1 ?_, hrest⟩
    rw [← heq]
    exact List.mem_map_of_mem hx

/-- `settle_job` beside the terminal event of a run of the job. -/
theorem settleJob_changes (now : Int) {jobId : Nat}
    (hpath : Changes m libs L₀ (v.ledger due spent)) (hdue : ∀ id, ¬due id)
    (hrun : ∃ r ∈ v.tables.runs, r.jobId = jobId ∧ r.status.terminal = true)
    (hevent : ∃ e ∈ v.tables.events, e.jobId = jobId ∧ e.unprocessed = true ∧ ¬spent e.eventId) :
    (settleJob now jobId).wp (rowAccount Job.SettledTo pick start) E
      (fun _ v' => Changes m libs L₀ (v'.ledger due spent) ∧ v'.tables.runs = v.tables.runs) v := by
  unfold settleJob
  simp only [Program.wp_bind, wp_updateJobs, Program.pure_eq, Program.wp_ret]
  set p : Job → Bool := fun j => j.jobId == jobId && j.state == .active && j.jobType != .recurring &&
    j.triggerOnJobId.isNone with hp
  refine ⟨fun j hj => settledTo_settle now j (by simp at hj; exact hj.1.1.2), ?_, rfl⟩
  by_cases hex : ∃ j ∈ v.tables.jobs, p j = true
  · obtain ⟨j, hj, hpj⟩ := hex
    have hpj' := hpj
    simp only [hp, Bool.and_eq_true, beq_iff_eq, bne_iff_ne, Option.isNone_iff_eq_none] at hpj'
    obtain ⟨⟨⟨rfl, hs⟩, htype⟩, hfree⟩ := hpj'
    have hupd := updateJobs_byKey hj hpj (fun i hi => by
      simp only [hp, Bool.and_eq_true, beq_iff_eq] at hi
      exact hi.1.1.1) (Job.settle now)
    have : (v.write (.updateJobs (v.jobIds p) (Job.settle now))).ledger due spent =
        (v.ledger due spent).setJob j.jobId (Job.settle now) := by
      simp only [View.ledger, View.write, View.jobIds, hupd, Ledger.setJob]
    rw [this]
    exact hpath.tail (.retire hdue hj hs htype hfree hrun hevent)
  · have hnil : v.jobIds p = [] := by
      simp only [View.jobIds, List.map_eq_nil_iff, List.filter_eq_nil_iff]
      exact fun j hj hpj => hex ⟨j, hj, hpj⟩
    have : v.write (.updateJobs [] (Job.settle now)) = v := by simp [View.write, Write.apply]
    rw [hnil, this]
    exact hpath

/-- One run reaches a terminal status, its event is written, and its job is settled if it is a
one-shot one that is not chained. -/
theorem end_changes (now : Int) {r : JobRun}
    {set : JobRun → JobRun} {type : EventType} (data : Option EventData)
    (hpath : Changes m libs L₀ (v.ledger due spent)) (hdue : ∀ id, ¬due id)
    (hspent : ∀ id, ¬spent id) (hr : r ∈ v.tables.runs) (hset : r.SameRun (set r))
    (htrans : Transition r.status (set r).status type)
    (hends : r.status = .running → m.ends r.runId) (hterminal : type.terminal = true) :
    (settleJob now r.jobId).wp (rowAccount Job.SettledTo pick start) E
      (fun _ v' => Changes m libs L₀ (v'.ledger due spent) ∧
        v'.tables.runs = (v.tables.setRun r.runId set).runs)
      ((v.setRun r.runId set).log start
        (.new r.runId r.jobId type (some r.status) (some (set r).status) data)) := by
  refine settleJob_changes now
    (move_changes start set data hpath (.inr hdue) hr hset htrans hends) hdue ?_ ?_
  · refine ⟨set r, Tables.mem_setRun.mpr ⟨r, hr, if_pos rfl⟩, hset.jobId, ?_⟩
    rw [← htrans.terminal_iff]
    exact hterminal
  · exact ⟨_, List.mem_append_right _ (List.mem_singleton_self _), rfl,
      by simp [RunEvent.unprocessed, storedEvent, RunEvent.new, hterminal, RunEvent.hasKey],
      hspent _⟩

end Moves

/-! ### The transactions -/

section Transactions

variable {older : Job → Job → Prop} {pick : Nat → Bool} {start now : Int} {E : Err → View → Prop}
  {v : View} {m : Mode} {libs : Libs} {L₀ : Ledger}

/-- The rows that a limited select answers are rows of the table, each at most once. -/
theorem locked_rows {t : Tables} {seq : Seq} (keys : Coherent t seq) {p : JobRun → Bool}
    {rs : List JobRun}
    (h : List.Sublist rs (t.runs.filter fun x => p x && pick x.runId)) :
    (rs.map (·.runId)).Nodup ∧ ∀ r ∈ rs, r ∈ t.runs ∧ p r = true ∧ pick r.runId = true := by
  refine ⟨keys.runs.sublist ((h.trans List.filter_sublist).map _), fun r hr => ?_⟩
  have := h.subset hr
  simp only [List.mem_filter, Bool.and_eq_true] at this
  exact this

theorem claimAndPublish_changes (hk : Coherent L₀.tables L₀.seq) (batchSize : Nat)
    (hpath : Changes m libs L₀ (v.ledger (fun _ => False) fun _ => False)) :
    (claimAndPublish now batchSize).wp (rowAccount older pick start) E
      (fun _ v' => Changes m libs L₀ (v'.ledger (fun _ => False) fun _ => False)) v := by
  unfold claimAndPublish
  simp only [Program.wp_bind, wp_lockRuns]
  intro rs hsub
  obtain ⟨hnd, hrs⟩ := locked_rows (hpath.coherent hk) hsub
  split
  · exact hpath
  · rw [Program.wp_bind]
    refine wp_updateRunsIn fun _ => ?_
    rw [Program.wp_bind]
    refine wp_moveAll hk (JobRun.queue now) .queued (fun _ => none) (.inr fun _ h => h) rs hpath hnd
      fun r hr => ?_
    obtain ⟨hmem, hp, -⟩ := hrs r hr
    simp only [Bool.and_eq_true, beq_iff_eq] at hp
    rw [hp.1]
    exact ⟨hmem, ⟨rfl, rfl, rfl, rfl, rfl⟩, .publish, by simp, rfl⟩

theorem sweepDlqRetrying_changes (hk : Coherent L₀.tables L₀.seq) (grace : Int) (batchSize : Nat)
    (hpath : Changes m libs L₀ (v.ledger (fun _ => False) fun _ => False)) :
    (sweepDlqRetrying now grace batchSize).wp (rowAccount older pick start) E
      (fun _ v' => Changes m libs L₀ (v'.ledger (fun _ => False) fun _ => False)) v := by
  unfold sweepDlqRetrying
  simp only [Program.wp_bind, wp_lockRuns]
  intro rs hsub
  obtain ⟨hnd, hrs⟩ := locked_rows (hpath.coherent hk) hsub
  split
  · exact hpath
  · rw [Program.wp_bind]
    refine wp_updateRunsIn fun _ => ?_
    rw [Program.wp_bind]
    refine wp_moveAll hk (JobRun.fail now "exceeded_max_receive (likely DLQ)") .failed
      (fun r => some (.dlqReconcile r.updatedAt)) (.inr fun _ h => h) rs hpath hnd fun r hr => ?_
    obtain ⟨hmem, hp, -⟩ := hrs r hr
    simp only [Bool.and_eq_true, beq_iff_eq] at hp
    rw [hp.1]
    exact ⟨hmem, ⟨rfl, rfl, rfl, rfl, rfl⟩, .deadLetter, by simp, rfl⟩

/-- A claim that wins moves the run to RUNNING. -/
theorem claim_changes (hk : Coherent L₀.tables L₀.seq) {runId jobId : Nat}
    (hpath : Changes m libs L₀ (v.ledger (fun _ => False) fun _ => False))
    (hrun : ∃ r ∈ v.tables.runs, r.runId = runId ∧ r.jobId = jobId) :
    (claimTxn now runId jobId).wp (rowAccount older pick start) E
      (fun won v' => Changes m libs L₀ (v'.ledger (fun _ => False) fun _ => False) ∧
        (won = true → (∃ r ∈ v.tables.runs, r.runId = runId ∧ r.status.cancellable = true) ∧
          ∃ r ∈ v'.tables.runs, r.runId = runId ∧ r.jobId = jobId ∧ r.status = .running)) v := by
  obtain ⟨r, hr, rfl, rfl⟩ := hrun
  have keys := hpath.coherent hk
  have hprev : (v.tables.runs.filter fun x => x.runId == r.runId).head?.map (·.status) =
      some r.status := by
    cases hf : v.tables.runs.filter fun x => x.runId == r.runId with
    | nil => simpa using List.filter_eq_nil_iff.mp hf r hr
    | cons x xs =>
      have hx : x ∈ v.tables.runs.filter fun x => x.runId == r.runId := by
        rw [hf]; exact List.mem_cons_self
      rw [List.mem_filter, beq_iff_eq] at hx
      simp [keys.run_eq hx.1 hr hx.2]
  unfold claimTxn claim
  simp only [Program.wp_bind, wp_selectRuns, wp_updateRuns, hprev]
  by_cases hcl : r.status.claimable = true
  · have hids : ∀ x ∈ v.tables.runs,
        x.runId ∈ v.runIds (fun x => x.runId == r.runId && x.status.claimable) ↔
          x.runId = r.runId := by
      intro x hx
      simp only [View.runIds, List.mem_map, List.mem_filter, Bool.and_eq_true, beq_iff_eq]
      constructor
      · rintro ⟨y, ⟨-, hy, -⟩, heq⟩
        exact heq ▸ hy
      · exact fun h => ⟨r, ⟨hr, rfl, hcl⟩, h.symm⟩
    have hne : (v.runIds fun x => x.runId == r.runId && x.status.claimable).isEmpty = false := by
      rw [List.isEmpty_eq_false_iff_exists_mem]
      exact ⟨r.runId, (hids r hr).mpr rfl⟩
    have hwrite : v.write (.updateRuns
        (v.runIds fun x => x.runId == r.runId && x.status.claimable) (JobRun.start now)) =
        v.setRun r.runId (JobRun.start now) := by
      simp only [View.write, View.setRun, View.mk.injEq, and_true]
      exact updateRuns_eq hids
    rw [hne, hwrite]
    simp only [Bool.false_eq_true, if_false, Program.wp_bind, wp_insertEvent, Program.pure_eq,
      Program.wp_ret, if_true, wp_loadJobs, wp_selectRuns]
    intro _ _
    have hcan : r.status.cancellable = true := by rw [← RunStatus.claimable_eq_cancellable, hcl]
    refine ⟨move_changes start (JobRun.start now) none hpath (.inr fun _ h => h) hr
      ⟨rfl, rfl, rfl, rfl, rfl⟩ (.claim hcan) (fun hrunning => ?_), fun _ => ?_⟩
    · rw [hrunning] at hcan
      cases hcan
    · exact ⟨⟨r, hr, rfl, hcan⟩, r.start now, Tables.mem_setRun.mpr ⟨r, hr, if_pos rfl⟩, rfl, rfl,
        rfl⟩
  · have hnil : v.runIds (fun x => x.runId == r.runId && x.status.claimable) = [] := by
      simp only [View.runIds, List.map_eq_nil_iff, List.filter_eq_nil_iff, Bool.and_eq_true,
        beq_iff_eq]
      rintro x hx ⟨hid, hc⟩
      exact hcl (keys.run_eq hx hr hid ▸ hc)
    have hsame : v.write (.updateRuns [] (JobRun.start now)) = v := by
      simp [View.write, Write.apply]
    rw [hnil, hsame]
    simp only [List.isEmpty_nil, if_true, Program.pure_eq, Program.wp_ret, Bool.false_eq_true,
      if_false]
    exact ⟨hpath, fun h => h.elim⟩

/-- The write after an action moves the run out of RUNNING. -/
theorem finishTxn_changes {runId jobId : Nat} (outcome : Outcome)
    (hpath : Changes m libs L₀ (v.ledger (fun _ => False) fun _ => False)) (hends : m.ends runId)
    (hrun : ∃ r ∈ v.tables.runs, r.runId = runId ∧ r.jobId = jobId ∧ r.status = .running) :
    (finishTxn now runId jobId outcome).wp (rowAccount Job.SettledTo pick start) E
      (fun _ v' => Changes m libs L₀ (v'.ledger (fun _ => False) fun _ => False)) v := by
  obtain ⟨r, hr, rfl, rfl, hs⟩ := hrun
  have hend : ∀ (set : JobRun → JobRun) (status : RunStatus) (data : Option EventData),
      r.SameRun (set r) → (set r).status = status → status.terminal = true →
      Transition .running status status.event →
      (do
        let _ ← Txn.updateRuns (fun x => x.runId == r.runId) set
        Txn.insertEvent (.new r.runId r.jobId status.event (some .running) (some status) data)
        let _ ← settleJob now r.jobId : Txn Unit).wp (rowAccount Job.SettledTo pick start) E
        (fun _ v' => Changes m libs L₀ (v'.ledger (fun _ => False) fun _ => False)) v := by
    intro set status data hset hst hterm htrans
    rw [Program.wp_bind]
    refine wp_updateRun fun _ => ?_
    simp only [Program.wp_bind, wp_insertEvent, Program.pure_eq]
    have h := @end_changes pick start E v m libs L₀ (fun _ => False) (fun _ => False) now r set
      status.event data hpath (fun _ h => h) (fun _ h => h) hr hset (by rw [hs, hst]; exact htrans)
      (fun _ => hends) (htrans.terminal_iff.trans hterm)
    rw [hs, hst] at h
    exact Program.wp_mono h fun _ _ h => h.1
  have hretry : ∀ message, (writeRetrying now r.runId r.jobId message).wp
      (rowAccount Job.SettledTo pick start) E
      (fun _ v' => Changes m libs L₀ (v'.ledger (fun _ => False) fun _ => False)) v := by
    intro message
    unfold writeRetrying
    rw [Program.wp_bind]
    refine wp_updateRun fun _ => ?_
    rw [wp_insertEvent]
    have h := move_changes start (JobRun.retry now message) none hpath (.inr fun _ h => h) hr
      ⟨rfl, rfl, rfl, rfl, rfl⟩ (by rw [hs]; exact .retry) (fun _ => hends)
    rw [hs] at h
    exact h
  cases outcome with
  | returned res =>
    simp only [finishTxn]
    split
    · exact hend (JobRun.finish now .succeeded res) .succeeded (res.result.map .result)
        ⟨rfl, rfl, rfl, rfl, rfl⟩ rfl rfl .succeed
    · split
      · exact hend (JobRun.finish now .failed res) .failed (res.result.map .result)
          ⟨rfl, rfl, rfl, rfl, rfl⟩ rfl rfl .fail
      · exact hretry _
  | raised message => exact hretry message
  | invalid message data =>
    exact hend (JobRun.fail now message) .failed data ⟨rfl, rfl, rfl, rfl, rfl⟩ rfl rfl .fail

theorem bumpHeartbeatAt_changes (runId : Nat)
    (hpath : Changes m libs L₀ (v.ledger (fun _ => False) fun _ => False)) :
    (bumpHeartbeatAt now runId).wp (rowAccount older pick start) E
      (fun _ v' => Changes m libs L₀ (v'.ledger (fun _ => False) fun _ => False)) v := by
  unfold bumpHeartbeatAt
  rw [Program.wp_bind]
  refine wp_updateRun fun _ => ?_
  simp only [Program.pure_eq, Program.wp_ret]
  by_cases hex : ∃ r ∈ v.tables.runs, r.runId = runId
  · obtain ⟨r, hr, rfl⟩ := hex
    exact hpath.tail (.touch hr ⟨rfl, rfl, rfl, rfl, rfl⟩ rfl)
  · have : v.setRun runId (fun r => { r with heartbeatAt := some now }) = v := by
      simp only [View.setRun, Tables.setRun]
      rw [List.map_congr_left (g := fun r => r) fun r hr => if_neg fun h => hex ⟨r, hr, h⟩]
      simp
    rw [this]
    exact hpath

/-- A loop over runs whose iterations leave the other runs alone. -/
theorem wp_forM_runs {acc : Account Stmt Reply View} {f : JobRun → Txn PUnit} (I : View → Prop)
    (P : JobRun → Prop)
    (step : ∀ r v, I v → r ∈ v.tables.runs → P r → (f r).wp acc E
      (fun _ v' => I v' ∧ ∀ x ∈ v.tables.runs, x.runId ≠ r.runId → x ∈ v'.tables.runs) v)
    (rs : List JobRun) (hI : I v) (hnd : (rs.map (·.runId)).Nodup)
    (hrs : ∀ r ∈ rs, r ∈ v.tables.runs ∧ P r) :
    (rs.forM f).wp acc E (fun _ v' => I v') v := by
  refine Program.wp_forM (fun rest w => I w ∧ (rest.map (·.runId)).Nodup ∧
    ∀ r ∈ rest, r ∈ w.tables.runs ∧ P r) ?_ (fun w h => h.1) rs v ⟨hI, hnd, hrs⟩
  rintro r rest w ⟨hIw, hndw, hw⟩
  rw [List.map_cons, List.nodup_cons] at hndw
  obtain ⟨hr, hP⟩ := hw r List.mem_cons_self
  refine Program.wp_mono (step r w hIw hr hP) fun _ w' ⟨hI', hkeep⟩ => ⟨hI', hndw.2, fun x hx => ?_⟩
  obtain ⟨hxw, hPx⟩ := hw x (List.mem_cons_of_mem _ hx)
  refine ⟨hkeep x hxw fun heq => hndw.1 ?_, hPx⟩
  rw [← heq]
  exact List.mem_map_of_mem hx

theorem sweepQueuedStuck_changes (hk : Coherent L₀.tables L₀.seq) (now' grace : Int)
    (batchSize : Nat) (sent : Nat → Bool)
    (hpath : Changes m libs L₀ (v.ledger (fun _ => False) fun _ => False)) :
    (sweepQueuedStuck now now' grace batchSize sent).wp (rowAccount older pick start) E
      (fun _ v' => Changes m libs L₀ (v'.ledger (fun _ => False) fun _ => False)) v := by
  unfold sweepQueuedStuck
  simp only [Program.wp_bind, wp_lockRuns]
  intro rs hsub
  obtain ⟨hnd, hrs⟩ := locked_rows (hpath.coherent hk) hsub
  refine wp_forM_runs (fun w => Changes m libs L₀ (w.ledger (fun _ => False) fun _ => False))
    (fun r => r.status = .queued) ?_ rs hpath hnd fun r hr => ?_
  · intro r w hw hr hs
    unfold requeueRun
    split
    · rw [Program.wp_bind]
      refine wp_updateRun fun _ => ?_
      rw [wp_insertEvent]
      have h := move_changes start (fun r' => { r' with updatedAt := now' }) (some .watcherSendFailed)
        hw (.inr fun _ h => h) hr ⟨rfl, rfl, rfl, rfl, rfl⟩ (by rw [hs]; exact .requeue)
        (by simp [hs])
      rw [hs] at h
      exact ⟨h, fun x hx hne => mem_setRun_of_ne hx hne⟩
    · exact ⟨hw, fun x hx _ => hx⟩
  · obtain ⟨hmem, hp, -⟩ := hrs r hr
    simp only [Bool.and_eq_true, beq_iff_eq] at hp
    exact ⟨hmem, hp.1.1⟩

theorem sweepRunningOrphan_changes (hk : Coherent L₀.tables L₀.seq)
    (registry : String → Option ActionHandler) (now' grace : Int) (batchSize : Nat)
    (hpath : Changes m libs L₀ (v.ledger (fun _ => False) fun _ => False))
    (hends : ∀ r ∈ v.tables.runs, r.status = .running →
      (r.heartbeatAt.all fun h => decide (h < now - grace)) = true → pick r.runId = true →
      m.ends r.runId) :
    (sweepRunningOrphan registry now now' grace batchSize).wp (rowAccount Job.SettledTo pick start) E
      (fun _ v' => Changes m libs L₀ (v'.ledger (fun _ => False) fun _ => False)) v := by
  unfold sweepRunningOrphan
  simp only [Program.wp_bind, wp_lockRuns]
  intro rs hsub
  obtain ⟨hnd, hrs⟩ := locked_rows (hpath.coherent hk) hsub
  split
  · exact hpath
  · simp only [Program.wp_bind, wp_selectJobs]
    refine wp_forM_runs (fun w => Changes m libs L₀ (w.ledger (fun _ => False) fun _ => False))
      (fun r => r.status = .running ∧ m.ends r.runId) ?_ rs hpath hnd fun r hr => ?_
    · rintro r w hw hr ⟨hs, hend⟩
      unfold recoverRun
      split
      · rw [Program.wp_bind]
        refine wp_updateRun fun _ => ?_
        rw [wp_insertEvent]
        have h := move_changes start (JobRun.queue now') (some (.runningOrphan r.heartbeatAt)) hw
          (.inr fun _ h => h) hr ⟨rfl, rfl, rfl, rfl, rfl⟩ (by rw [hs]; exact .recover) (fun _ => hend)
        rw [hs] at h
        exact ⟨h, fun x hx hne => mem_setRun_of_ne hx hne⟩
      · rw [Program.wp_bind]
        refine wp_updateRun fun _ => ?_
        simp only [Program.wp_bind, wp_insertEvent, Program.pure_eq]
        have h := @end_changes pick start E w m libs L₀ (fun _ => False) (fun _ => False) now' r
          (JobRun.fail now' runningOrphanMessage) .failed (some (.runningOrphan r.heartbeatAt)) hw
          (fun _ h => h) (fun _ h => h) hr ⟨rfl, rfl, rfl, rfl, rfl⟩ (by rw [hs]; exact .fail)
          (fun _ => hend) rfl
        rw [hs] at h
        refine Program.wp_mono h fun _ w' h' => ⟨h'.1, fun x hx hne => ?_⟩
        rw [h'.2]
        exact mem_setRun_of_ne hx hne
    · obtain ⟨hmem, hp, hpick⟩ := hrs r hr
      simp only [Bool.and_eq_true, beq_iff_eq] at hp
      exact ⟨hmem, hp.1, hends r hmem hp.1 hp.2 hpick⟩

/-! #### Creation -/

theorem eq_aging : Aging (Eq : Job → Job → Prop) where
  refl j := rfl
  trans h h' := h.trans h'
  sameDef h := by rw [h]; rfl
  state h := .inl (by rw [h])

/-- Without a cron expression, the checks plan a job that fires once. -/
theorem planSchedule_oneShot {now : Int} {args : CreateArgs} {scheduleType : ScheduleType}
    {status : Option TriggerStatus} {plan : CreatePlan}
    (h : planSchedule libs now args scheduleType status = .ok plan)
    (hcron : args.cronExpr.getD "" = "") : plan.cronExpr = none := by
  unfold planSchedule at h
  cases scheduleType with
  | recurring => simp [hcron] at h
  | oneShot =>
    dsimp only at h
    split at h
    · cases h
    · split at h
      · cases h
      · cases h
        rfl
  | immediate =>
    cases h
    rfl

/-- A job that passes the checks is not both chained and recurring. -/
theorem planCreate_chained {now : Int} {args : CreateArgs} {plan : CreatePlan}
    (h : planCreate libs now args = .ok plan) (htrigger : args.triggerOnJobId.isSome = true) :
    plan.cronExpr = none := by
  unfold planCreate at h
  split at h
  · cases h
  · split at h
    · cases h
    · split at h
      · cases h
      · split at h
        · cases h
        · split at h
          · cases h
          · next hsource =>
            have hcron : args.cronExpr.getD "" = "" := by
              by_contra hne
              simp [validateRunSource, htrigger, hne] at hsource
            exact planSchedule_oneShot h hcron

theorem Job.new_lifecycle {now : Int} {args : CreateArgs} {plan : CreatePlan}
    (h : planCreate libs now args = .ok plan) : (Job.new args plan).Lifecycle where
  recurring := by
    simp only [Job.new]
    split <;> simp_all
  chained := planCreate_chained h
  schedule _ := by simp [Job.new]
  cancelled := by simp [Job.new]

/-- The insert of a new job, with the first run of one that is not chained. -/
theorem insertNewJob_changes (hk : Coherent L₀.tables L₀.seq) {args : CreateArgs}
    {plan : CreatePlan} (hplan : planCreate libs now args = .ok plan)
    (hpath : Changes m libs L₀ (v.ledger (fun _ => False) fun _ => False))
    (hparent : ∀ p, args.triggerOnJobId = some p → v.tables.Active p) :
    (insertNewJob args plan).wp (rowAccount Eq pick start) (fun _ _ => True)
      (fun _ v' => Changes m libs L₀ (v'.ledger (fun _ => False) fun _ => False)) v := by
  have keys := hpath.coherent hk
  unfold insertNewJob
  rw [Program.wp_bind]
  refine wp_insertJob (fun _ => trivial) fun _ => ?_
  set job := storedJob v.seq start (.new args plan) with hjob
  set v₁ := (v.write (.insertJob job)).nextJob with hv₁
  have hpath₁ := hpath.tail (@Change.addJob m libs _ start _ rfl (Job.new_lifecycle hplan) hparent)
  have hmem : job ∈ v₁.tables.jobs := List.mem_append_right _ (List.mem_singleton_self _)
  have hclear : ∀ w : View, Changes m libs L₀ (w.ledger (fun d => False ∨ d = v.seq.jobs)
      fun _ => False) → ¬w.tables.Exhausted v.seq.jobs →
      Changes m libs L₀ (w.ledger (fun _ => False) fun _ => False) := by
    intro w hw hex
    have h := hw.tail (.clear hex)
    have hnone : (fun d => (False ∨ d = v.seq.jobs) ∧ d ≠ v.seq.jobs) = fun _ => False := by
      funext d
      simp
    simp only [Ledger.clear, View.ledger, hnone] at h
    exact h
  cases htrigger : args.triggerOnJobId with
  | none =>
    simp only [Option.isNone_none, if_true, Program.wp_bind, materializeInitial]
    refine wp_spawnRun (fun _ => trivial) (fun _ _ => trivial) fun hidle hclash => ?_
    refine hclear _ ?_ fun hex => ?_
    · refine hpath₁.tail (@Change.spawn m libs _ start plan.runAt job _ none hmem rfl rfl hidle hclash
        (.initial htrigger fun r hr heq => ?_))
      obtain ⟨j, hj, hjr⟩ := keys.run_job r hr
      have := keys.jobs.below j hj
      rw [hjr, heq] at this
      exact lt_irrefl _ this
    · obtain ⟨_, _, _, _, _, hno, _⟩ := hex
      exact hno ⟨_, List.mem_append_right _ (List.mem_singleton_self _), rfl, rfl⟩
  | some p =>
    refine hclear v₁ hpath₁ ?_
    rintro ⟨j, hj, hjid, -, -, -, hno⟩
    obtain ⟨i, hi, hip, his⟩ := hparent p htrigger
    have : j = job := by
      rcases List.mem_append.mp hj with hj | hj
      · exact absurd hjid (keys.jobs.below j hj).ne
      · exact List.mem_singleton.mp hj
    exact hno p (this ▸ htrigger) ⟨i, List.mem_append_left _ hi, hip, his⟩

theorem validateChain_active {userId : String} {trigger : Nat} {Q : Unit → View → Prop}
    (h : v.tables.Active trigger → Q () v) :
    (validateChain userId trigger).wp (rowAccount Eq pick start) (fun _ _ => True) Q v := by
  unfold validateChain
  simp only [Program.wp_bind, wp_loadJobs]
  intro rows hrows
  rcases loaded_head hrows with ⟨hnone, -⟩ | ⟨c, hsome, r, hr, hrid, rfl⟩
  · rw [hnone]
    trivial
  · rw [hsome]
    simp only [beq_iff_eq] at hrid
    dsimp only
    split
    · trivial
    · split
      · trivial
      · next hs =>
        simp only [bne_iff_ne, ne_eq, not_not] at hs
        simp only [Program.wp_bind, wp_ancestors]
        split
        · trivial
        · split
          · trivial
          · exact h ⟨c, hr, hrid, hs⟩

theorem createJob_changes (hk : Coherent L₀.tables L₀.seq) (args : CreateArgs)
    (hpath : Changes m libs L₀ (v.ledger (fun _ => False) fun _ => False)) :
    (createJob libs now args).wp (rowAccount Eq pick start) (fun _ _ => True)
      (fun _ v' => Changes m libs L₀ (v'.ledger (fun _ => False) fun _ => False)) v := by
  unfold createJob
  split
  · trivial
  · next plan hplan =>
    have hinsert : (createNew args plan).wp (rowAccount Eq pick start) (fun _ _ => True)
        (fun _ v' => Changes m libs L₀ (v'.ledger (fun _ => False) fun _ => False)) v := by
      unfold createNew
      cases htrigger : args.triggerOnJobId with
      | none => exact insertNewJob_changes hk hplan hpath (by simp [htrigger])
      | some trigger =>
        rw [Program.wp_bind]
        refine validateChain_active fun hactive => insertNewJob_changes hk hplan hpath fun p hp => ?_
        rw [htrigger, Option.some.injEq] at hp
        exact hp ▸ hactive
    rw [Program.wp_bind]
    unfold existingJob
    cases args.idempotencyKey with
    | none => exact hinsert
    | some key =>
      simp only [Program.wp_bind, wp_loadJobs, Program.pure_eq, Program.wp_ret]
      intro rows _
      cases rows.head? with
      | none => exact hinsert
      | some job => exact hpath

/-! #### Cancellation -/

/-- The entities of a cancel may be behind its own settles and its own cancel. -/
def Job.Since (c r : Job) : Prop :=
  r = c ∨ (c.state = .active ∧ ∃ now, r = c.settle now ∨ r = c.cancel now)

theorem since_aging : Aging Job.Since where
  refl j := .inl rfl
  trans h h' := by
    rcases h' with rfl | ⟨hb, now, hc⟩
    · exact h
    · rcases h with rfl | ⟨-, now', rfl | rfl⟩
      · exact .inr ⟨hb, now, hc⟩
      · cases hb
      · cases hb
  sameDef h := by
    rcases h with rfl | ⟨-, now, rfl | rfl⟩ <;> rfl
  state h := by
    rcases h with rfl | ⟨hs, -⟩
    · exact .inl rfl
    · exact .inr hs

theorem cancelRuns_changes (hk : Coherent L₀.tables L₀.seq) (hmode : m.cancels) {depth jobId : Nat}
    (hpath : Changes m libs L₀
      (v.ledger (fun d => False ∨ v.tables.Child jobId d) fun _ => False)) :
    (cancelRuns now depth jobId).wp (rowAccount Job.Since pick start) (fun _ _ => True)
      (fun _ v' => Changes m libs L₀ (v'.ledger (fun _ => False) fun _ => False)) v := by
  unfold cancelRuns
  simp only [Program.wp_bind, wp_selectRuns]
  have keys := hpath.coherent hk
  have hnd : ((v.tables.runs.filter fun r => r.jobId == jobId).map (·.runId)).Nodup :=
    keys.runs.sublist (List.filter_sublist.map _)
  refine Program.wp_mono (wp_forM_runs (fun w => Changes m libs L₀
      (w.ledger (fun d => False ∨ v.tables.Child jobId d) fun _ => False) ∧
      w.tables.jobs = v.tables.jobs) (fun r => r.jobId = jobId) ?_ _ ⟨hpath, rfl⟩ hnd ?_) ?_
  · rintro r w ⟨hw, hjobs⟩ hr rfl
    unfold flipRun
    split
    · next hcan =>
      rw [Program.wp_bind]
      refine wp_updateRun fun _ => ?_
      rw [wp_insertEvent]
      have h := move_changes start JobRun.flip none hw (.inl hmode) hr ⟨rfl, rfl, rfl, rfl, rfl⟩
        (.cancel hcan) fun hrun => by rw [hrun] at hcan; cases hcan
      exact ⟨⟨h, hjobs⟩, fun x hx hne => mem_setRun_of_ne hx hne⟩
    · exact ⟨⟨hw, hjobs⟩, fun x hx _ => hx⟩
  · intro r hr
    rw [List.mem_filter, beq_iff_eq] at hr
    exact hr
  · rintro _ w ⟨hw, hjobs⟩
    have hchild : ∀ d, w.tables.Child jobId d ↔ v.tables.Child jobId d := by
      intro d
      simp only [Tables.Child, hjobs]
    have hchecks := @settleCheck_checks m libs L₀ (fun _ => False) _ pick start since_aging
      (fun now j hj => .inr ⟨hj, now, .inl rfl⟩) hk now depth
    refine Program.wp_mono (hchecks.downstreams jobId w _ hw fun d hd =>
      .inr ((hchild d).mp hd)) ?_
    rintro _ w' ⟨due', h'⟩
    have hnone : due' = fun _ => False := by
      funext d
      refine eq_false fun hd => ?_
      obtain ⟨h | h, hnot⟩ := h'.owed d hd
      · exact h
      · exact hnot ((hchild d).mpr h)
    rw [hnone] at h'
    exact h'.path

theorem cancelJob_changes (hk : Coherent L₀.tables L₀.seq) (hmode : m.cancels) {depth jobId : Nat}
    (userId : String) (hpath : Changes m libs L₀ (v.ledger (fun _ => False) fun _ => False)) :
    (cancelJob now depth userId jobId).wp (rowAccount Job.Since pick start) (fun _ _ => True)
      (fun _ v' => Changes m libs L₀ (v'.ledger (fun _ => False) fun _ => False)) v := by
  unfold cancelJob
  simp only [Program.wp_bind, wp_loadJobs]
  intro rows hrows
  cases rows.head? with
  | none => trivial
  | some c =>
    dsimp only
    cases c.state with
    | cancelled => exact hpath
    | completed =>
      simp only [terminalStatusHint, Program.wp_bind, wp_selectRuns, Program.pure_eq, Program.wp_ret,
        wp_txn_raise]
    | active =>
      simp only [Program.wp_bind, wp_updateJobs]
      refine ⟨fun j hj => .inr ⟨by simp at hj; exact hj.2, now, .inr rfl⟩, ?_⟩
      by_cases hex : ∃ j ∈ v.tables.jobs, j.jobId = jobId ∧ j.state = .active
      · obtain ⟨j, hj, rfl, hs⟩ := hex
        have hupd := updateJobs_byKey (p := fun i => i.jobId == j.jobId && i.state == .active) hj
          (by simp [hs]) (fun i hi => by
            simp only [Bool.and_eq_true, beq_iff_eq] at hi
            exact hi.1) (Job.cancel now)
        have hne : (v.jobIds fun i => i.jobId == j.jobId && i.state == .active).isEmpty = false := by
          simp only [View.jobIds, List.isEmpty_eq_false_iff_exists_mem, List.mem_map,
            List.mem_filter]
          exact ⟨j.jobId, j, ⟨hj, by simp [hs]⟩, rfl⟩
        rw [hne]
        simp only [Bool.false_eq_true, if_false, Program.wp_bind]
        refine Program.wp_mono (cancelRuns_changes hk hmode ?_) fun _ _ h => h
        unfold View.ledger View.write View.jobIds
        rw [hupd]
        exact hpath.tail (.cancel hmode hj hs)
      · have hnil : v.jobIds (fun i => i.jobId == jobId && i.state == .active) = [] := by
          simp only [View.jobIds, List.map_eq_nil_iff, List.filter_eq_nil_iff, Bool.and_eq_true,
            beq_iff_eq]
          exact fun j hj h => hex ⟨j, hj, h⟩
        have hsame : v.write (.updateJobs [] (Job.cancel now)) = v := by
          simp [View.write, Write.apply]
        rw [hnil, hsame]
        simp only [List.isEmpty_nil, if_true, Program.wp_bind, wp_selectJobs]
        split
        · trivial
        · split
          · exact hpath
          · simp only [terminalStatusHint, Program.wp_bind, wp_selectRuns, Program.pure_eq,
              Program.wp_ret, wp_txn_raise]

end Transactions

end TaskScheduler
