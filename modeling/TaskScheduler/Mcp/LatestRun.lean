import TaskScheduler.Domain.Views
import TaskScheduler.Interleave.LatestKeys
import TaskScheduler.Mcp.StatusMapping

/-! The latest run of a job, as its readers select it: when it is the run that executes. -/

namespace TaskScheduler

open Lib

/-! ### The readers -/

section Readers

variable {t : Tables} {r : JobRun}

/-- A run that executes is the latest one of its job, whichever runs tie in a sort. -/
theorem Tables.LiveLatest.eq_of_le (h : t.LiveLatest) (hnodup : (t.runs.map (·.runId)).Nodup)
    (hr : r ∈ t.runs) (hlive : r.status.executing = true) {m : JobRun}
    (hm : m ∈ t.runs.filter fun x => x.jobId == r.jobId) (hle : r.latestKey ≤ m.latestKey) : m = r := by
  obtain ⟨hmem, hjob⟩ := List.mem_filter.mp hm
  refine List.inj_on_of_nodup_map hnodup hmem hr (Classical.byContradiction fun hne => ?_)
  have hlt := h r hr hlive m hmem (beq_iff_eq.mp hjob) hne
  omega

theorem mem_ownRuns (hr : r ∈ t.runs) : r ∈ t.runs.filter fun x => x.jobId == r.jobId :=
  List.mem_filter.mpr ⟨hr, by simp⟩

theorem Tables.LiveLatest.latestRun (h : t.LiveLatest) (hnodup : (t.runs.map (·.runId)).Nodup)
    (hr : r ∈ t.runs) (hlive : r.status.executing = true) :
    latestRun (t.runs.filter fun x => x.jobId == r.jobId) = some r := by
  obtain ⟨m, hm⟩ := exists_latestRun (mem_ownRuns hr)
  obtain ⟨hmem, hmax⟩ := latestRun_spec hm
  rw [hm, h.eq_of_le hnodup hr hlive hmem (hmax r (mem_ownRuns hr))]

theorem Tables.LiveLatest.latestRunStatus (h : t.LiveLatest) (hnodup : (t.runs.map (·.runId)).Nodup)
    (hr : r ∈ t.runs) (hlive : r.status.executing = true) {j : Job} (hj : j.jobId = r.jobId) :
    latestRunStatus t j = some r.status := by
  rw [TaskScheduler.latestRunStatus, hj, h.latestRun hnodup hr hlive]
  rfl

/-- The first row of a descending sort has the largest key. -/
theorem newestFirst_cons {runs rest : List JobRun} {m : JobRun} (h : newestFirst runs = m :: rest) :
    m ∈ runs ∧ ∀ x ∈ runs, x.latestKey ≤ m.latestKey := by
  have : Std.Total fun a b : JobRun => b.latestKey ≤ a.latestKey :=
    ⟨fun a b => le_total b.latestKey a.latestKey⟩
  have : IsTrans JobRun fun a b => b.latestKey ≤ a.latestKey := ⟨fun _ _ _ hab hbc => le_trans hbc hab⟩
  have hsorted := List.pairwise_insertionSort (fun a b : JobRun => b.latestKey ≤ a.latestKey) runs
  have hmem : ∀ x, x ∈ runs ↔ x ∈ m :: rest := fun x => h ▸ (List.mem_insertionSort _).symm
  rw [newestFirst] at h
  rw [h, List.pairwise_cons] at hsorted
  refine ⟨(hmem m).mpr List.mem_cons_self, fun x hx => ?_⟩
  rcases List.mem_cons.mp ((hmem x).mp hx) with rfl | hx
  · exact le_refl _
  · exact hsorted.1 x hx

theorem Tables.LiveLatest.newestFirst (h : t.LiveLatest) (hnodup : (t.runs.map (·.runId)).Nodup)
    (hr : r ∈ t.runs) (hlive : r.status.executing = true) :
    ∃ rest, newestFirst (t.runs.filter fun x => x.jobId == r.jobId) = r :: rest := by
  cases hsort : TaskScheduler.newestFirst (t.runs.filter fun x => x.jobId == r.jobId) with
  | nil =>
    have hmem : r ∈ TaskScheduler.newestFirst (t.runs.filter fun x => x.jobId == r.jobId) :=
      (List.mem_insertionSort _).mpr (mem_ownRuns hr)
    rw [hsort] at hmem
    cases hmem
  | cons m rest =>
    obtain ⟨hmem, hmax⟩ := newestFirst_cons hsort
    rw [h.eq_of_le hnodup hr hlive hmem (hmax r (mem_ownRuns hr))]
    exact ⟨rest, rfl⟩

/-- What `get_job_with_runs` answers on the tables `t`. -/
theorem getJobWithRuns_run {userId : String} {jobId : Nat} {includeRuns : Bool} {runLimit : Nat}
    {pick : Nat → Bool} {others : List Session} {seq : Seq} {start : Int} {view : JobView}
    {d : Seq × Session} (hrun : (getJobWithRuns userId jobId includeRuns runLimit).run
      (Stmt.exec pick others t) (seq, { start }) = some (.ok view, d)) :
    ∃ job, view = jobView job includeRuns
      ((newestFirst (t.runs.filter fun r => r.jobId == jobId)).take
        (if includeRuns then runLimit else 1)) := by
  obtain ⟨rows, ⟨seq', ses'⟩, hload, hrest⟩ := Program.run_bind_ok hrun
  cases hload
  generalize (List.map _ _ : List Job).head? = found at hrest
  cases found with
  | none => cases hrest
  | some job =>
    obtain ⟨runs, d', hselect, hret⟩ := Program.run_bind_ok hrest
    cases hselect
    cases hret
    exact ⟨job, rfl⟩

end Readers

namespace Sys

variable {cfg : Config} {ok : Sys → Act → Prop} {σ : Sys}

/-- In every run whose times are in order, a run that executes is the one that the readers of its job
select as the latest. -/
theorem latest_run_executes (hreach : Reach cfg ok σ)
    (hok : ∀ σ a, ok σ a → σ.KeysInOrder cfg.libs a)
    {r : JobRun} (hr : r ∈ σ.tables.runs) (hlive : r.status.executing = true) :
    (∀ x ∈ σ.tables.runs, x.jobId = r.jobId → x.runId ≠ r.runId → x.latestKey < r.latestKey) ∧
    (∀ userId includeRuns runLimit pick others seq start view d,
      (includeRuns = true → 1 ≤ runLimit) →
      (getJobWithRuns userId r.jobId includeRuns runLimit).run (Stmt.exec pick others σ.tables)
        (seq, { start }) = some (.ok view, d) →
      view.latestRunStatus = some r.status ∧
        ∀ runs, view.runs = some runs → runs.head? = some r.view) ∧
    (∀ t userId f paged, listJobs t σ.tables userId f = some paged → ∀ item ∈ paged.items,
      item.jobId = r.jobId → item.latestRunStatus = some r.status) ∧
    (∀ t userId limit, ∀ item ∈ (listJobsResource t σ.tables userId limit).1,
      item.jobId = r.jobId → item.latestRunStatus = some r.status) ∧
    toExternal r.status ∈ [ExternalStatus.scheduled, .running] := by
  have hσ := hreach.keysOrdered hok
  have hnodup := hσ.interleaved.coherent.runs
  refine ⟨hσ.latest r hr hlive, ?_, ?_, ?_, ?_⟩
  · intro userId includeRuns runLimit pick others seq start view d hlimit hrun
    obtain ⟨job, rfl⟩ := getJobWithRuns_run hrun
    obtain ⟨rest, hsort⟩ := hσ.latest.newestFirst hnodup hr hlive
    obtain ⟨n, hn⟩ : ∃ n, (if includeRuns then runLimit else 1) = n + 1 := by
      cases includeRuns with
      | false => exact ⟨0, rfl⟩
      | true => exact ⟨runLimit - 1, by have := hlimit rfl; simp only [if_true]; omega⟩
    rw [hsort, hn, List.take_succ_cons]
    refine ⟨rfl, fun runs hruns => ?_⟩
    cases includeRuns with
    | false => cases hruns
    | true =>
      cases hruns
      rfl
  · intro t userId f paged hlist item hitem hjob
    unfold listJobs at hlist
    split at hlist
    · cases hlist
      obtain ⟨j, -, rfl⟩ := List.mem_map.mp hitem
      exact hσ.latest.latestRunStatus hnodup hr hlive hjob
    · cases hlist
  · intro t userId limit item hitem hjob
    obtain ⟨j, -, rfl⟩ := List.mem_map.mp hitem
    exact hσ.latest.latestRunStatus hnodup hr hlive hjob
  · cases hs : r.status with
    | pending | queued | running | retrying => simp [toExternal]
    | _ =>
      rw [hs] at hlive
      cases hlive

/-! ### Concrete runs -/

instance (t : Tables) (jobId : Nat) (at_ : Int) : Decidable (t.SortBefore jobId at_) :=
  inferInstanceAs (Decidable (∀ x ∈ t.runs, x.jobId = jobId → x.latestKey < at_))

instance (libs : Libs) (t : Tables) (jobId : Nat) : DecidablePred (t.DueLast libs jobId)
  | some runId => inferInstanceAs (Decidable (∀ e ∈ t.events, e.eventType.terminal = true →
    e.runId = runId → t.SortBefore jobId e.occurredAt))
  | none => inferInstanceAs (Decidable (∀ j ∈ t.jobs, j.jobId = jobId → ∀ prev ∈ t.runs,
    prev.jobId = jobId → ∀ e ∈ t.events, e.eventType.terminal = true → e.runId = prev.runId →
    ∀ cron ∈ j.cronExpr, ∀ tick ∈ nextAfter libs cron j.zone (successorAnchor prev e.occurredAt),
    (∀ x ∈ t.runs, x.jobId = jobId → x.waitForRunId = none → x.scheduledAt ≠ tick) →
    t.SortBefore jobId tick))

instance (libs : Libs) (t : Tables) (o : Open) : Decidable (o.InOrder libs t) := by
  unfold Open.InOrder
  split <;> infer_instance

/-- `KeysInOrder`, decided. -/
def keysInOrder (libs : Libs) (σ : Sys) : Act → Bool
  | .atomic _ _ _ => false
  | .commit i => (σ.sessions[i]?.join).all fun o => decide (o.InOrder libs σ.tables)
  | _ => true

theorem keysInOrder_sound (libs : Libs) (σ : Sys) (a : Act) (h : keysInOrder libs σ a = true) :
    σ.KeysInOrder libs a := by
  cases a with
  | atomic k start pick => cases h
  | commit i =>
    intro o ho
    simp only [keysInOrder, ho, Option.join_some, Option.all_some, decide_eq_true_eq] at h
    exact h
  | _ => trivial

/-- A recurring job and a job that is chained on it.  The downstream's run has started before the
upstream ends again, so that the run after that end sorts last. -/
def promptRun : List Act :=
  Act.session 0 (.create 0 (.echo (some "* * * * *") none none)) 0 5 ++
    Act.session 1 (.create 0 (.echo none (some 1) none)) 0 3 ++
    Act.session 2 (.claim (61 * second) 1 1) (61 * second) 5 ++
    Act.session 3 (.finish (62 * second) 1 1 .success) (62 * second) 3 ++
    Act.session 4 (.poll (63 * second) 50) (63 * second) 21 ++
    Act.session 5 (.claim (64 * second) 3 2) (64 * second) 5 ++
    Act.session 6 (.finish (65 * second) 3 2 .success) (65 * second) 3 ++
    Act.session 7 (.claim (120 * second) 2 1) (120 * second) 5 ++
    Act.session 8 (.finish (121 * second) 2 1 .success) (121 * second) 3 ++
    Act.session 9 (.poll (122 * second) 50) (122 * second) 28

/-- The same chain, but its upstream ends again before the downstream's run starts, and the consumer
reads that end only after the downstream's run has ended too. -/
def lagRun : List Act :=
  [.at 0 (.create 0 (.echo (some "* * * * *") none none)),
    .at 0 (.create 0 (.echo none (some 1) none)),
    .at (61 * second) (.claim (61 * second) 1 1),
    .at (62 * second) (.finish (62 * second) 1 1 .success),
    .at (63 * second) (.poll (63 * second) 50),
    .at (120 * second) (.claim (120 * second) 2 1),
    .at (121 * second) (.finish (121 * second) 2 1 .success),
    .at (125 * second) (.claim (125 * second) 3 2),
    .at (126 * second) (.finish (126 * second) 3 2 .success),
    .at (127 * second) (.poll (127 * second) 50)]

/-- The readers of the downstream show its second run. -/
theorem promptRun_shown : ∃ σ, Reach .minutely (KeysInOrder Config.minutely.libs) σ ∧
    ∃ r ∈ σ.tables.runs, r.jobId = 2 ∧ r.status = .pending ∧ ∀ userId f paged,
      listJobs σ.tables σ.tables userId f = some paged → ∀ item ∈ paged.items, item.jobId = 2 →
        item.latestRunStatus = some .pending := by
  have hrun : (checkActs .minutely (keysInOrder Config.minutely.libs) {} promptRun).any (fun σ =>
      decide (∃ r ∈ σ.tables.runs, r.jobId = 2 ∧ r.status = .pending)) = true := by
    decide +kernel
  obtain ⟨σ, hσ, hend⟩ := (Option.any_eq_true _ _).mp hrun
  obtain ⟨r, hr, hjob, hstatus⟩ := of_decide_eq_true hend
  have hreach : Reach .minutely (KeysInOrder Config.minutely.libs) σ :=
    Reach.checkActs (keysInOrder_sound _) .init hσ
  refine ⟨σ, hreach, r, hr, hjob, hstatus, fun userId f paged hlist item hitem hid => ?_⟩
  rw [← hstatus]
  exact (latest_run_executes hreach (fun _ _ h => h) hr (by rw [hstatus]; rfl)).2.2.1 _ userId f paged
    hlist item hitem (hid.trans hjob.symm)

/-- The downstream has a pending run, and its readers show the run that has succeeded before. -/
theorem lagRun_hides : ∃ σ, Reach .minutely (fun _ _ => True) σ ∧
    (∃ r ∈ σ.tables.runs, r.jobId = 2 ∧ r.status = .pending) ∧
    (∃ j ∈ σ.tables.jobs, j.jobId = 2 ∧ latestRunStatus σ.tables j = some .succeeded) ∧
    ((newestFirst (σ.tables.runs.filter fun r => r.jobId == 2)).head?.map (·.status)) =
      some .succeeded := by
  have hrun : (({} : Sys).runActs .minutely lagRun).any (fun σ => decide (
      (∃ r ∈ σ.tables.runs, r.jobId = 2 ∧ r.status = .pending) ∧
      (∃ j ∈ σ.tables.jobs, j.jobId = 2 ∧ latestRunStatus σ.tables j = some .succeeded) ∧
      ((newestFirst (σ.tables.runs.filter fun r => r.jobId == 2)).head?.map (·.status)) =
        some .succeeded)) = true := by
    decide +kernel
  obtain ⟨σ, hσ, hend⟩ := (Option.any_eq_true _ _).mp hrun
  exact ⟨σ, Reach.init.runActs (fun _ _ _ => trivial) hσ, of_decide_eq_true hend⟩

end Sys

end TaskScheduler
