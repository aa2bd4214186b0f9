import TaskScheduler.Fleet.Early

/-! What the transactions make of the runs that they are about. -/

namespace TaskScheduler

open Lib

theorem Outcome.status_retrying (outcome : Outcome) :
    outcome.status = .retrying ↔ outcome.retries = true := by
  cases outcome with
  | returned res =>
    unfold Outcome.status Outcome.retries
    cases hok : res.ok <;> cases hre : res.retryable <;> simp [hok, hre]
  | raised message => simp [Outcome.status, Outcome.retries]
  | invalid message eventData => simp [Outcome.status, Outcome.retries]

theorem Outcome.status_ended (outcome : Outcome) (h : outcome.retries = false) :
    outcome.status.terminal = true := by
  cases outcome with
  | returned res =>
    unfold Outcome.retries at h
    unfold Outcome.status
    cases hok : res.ok <;> cases hre : res.retryable <;> simp_all [RunStatus.terminal]
  | raised message => cases h
  | invalid message eventData => rfl

/-- The runs with these keys have this status. -/
def Tables.RunsAre (t : Tables) (ids : List Nat) (s : RunStatus) : Prop :=
  ∀ r ∈ t.runs, r.runId ∈ ids → r.status = s

/-- The status of the run would accept a claim. -/
def Fleet.Claimable (φ : Fleet) (runId : Nat) : Prop :=
  ∃ r ∈ φ.db.tables.runs, r.runId = runId ∧ r.status.claimable = true

section

variable {older : Job → Job → Prop} {pick : Nat → Bool} {start now : Int} {E : Err → View → Prop}
  {v : View}

/-- A settle and the events leave the runs as they are. -/
theorem wp_settleJob_runs {P : List JobRun → Prop} {jobId : Nat} (h : P v.tables.runs) :
    (settleJob now jobId).wp (rowAccount Job.SettledTo pick start) E
      (fun _ v' => P v'.tables.runs) v := by
  unfold settleJob
  simp only [Program.wp_bind, wp_updateJobs, Program.pure_eq, Program.wp_ret]
  exact ⟨fun j hj => settledTo_settle now j (by simp at hj; exact hj.1.1.2), h⟩

theorem wp_insertEvents_runs {P : List JobRun → Prop} {event : JobRun → RunEvent} (rs : List JobRun)
    (h : P v.tables.runs) :
    (rs.forM fun r => Txn.insertEvent (event r)).wp (rowAccount older pick start) E
      (fun _ v' => P v'.tables.runs) v := by
  refine Program.wp_forM (fun _ v' => P v'.tables.runs) (fun r rs v' h => ?_) (fun _ h => h) rs v h
  rw [wp_insertEvent]
  exact h

/-- The write after an action gives its run the status of the outcome. -/
theorem finishTxn_ends (runId jobId : Nat) (outcome : Outcome) :
    (finishTxn now runId jobId outcome).wp (rowAccount Job.SettledTo pick start) E
      (fun _ v' => v'.tables.RunsAre [runId] outcome.status) v := by
  have hset : ∀ (set : JobRun → JobRun) (s : RunStatus), (∀ r, (set r).runId = r.runId) →
      (∀ r, (set r).status = s) → (v.setRun runId set).tables.RunsAre [runId] s := by
    intro set s hid hs r' hr' hin
    obtain ⟨r, hr, rfl⟩ := Tables.mem_setRun.mp hr'
    split
    · exact hs r
    · next hne =>
      rw [if_neg hne] at hin
      exact absurd (List.mem_singleton.mp hin) hne
  have hterminal : ∀ (status : RunStatus) (res : ActionResult),
      (writeTerminal now runId jobId status res).wp (rowAccount Job.SettledTo pick start) E
        (fun _ v' => v'.tables.RunsAre [runId] status) v := by
    intro status res
    unfold writeTerminal
    simp only [Program.wp_bind]
    refine wp_updateRun fun _ => ?_
    simp only [Program.wp_bind, wp_insertEvent, Program.pure_eq]
    exact wp_settleJob_runs (P := fun runs => ∀ r ∈ runs, r.runId ∈ [runId] → r.status = status)
      (hset _ _ (fun _ => rfl) fun _ => rfl)
  have hretry : ∀ message, (writeRetrying now runId jobId message).wp
      (rowAccount Job.SettledTo pick start) E (fun _ v' => v'.tables.RunsAre [runId] .retrying) v := by
    intro message
    unfold writeRetrying
    simp only [Program.wp_bind]
    refine wp_updateRun fun _ => ?_
    rw [wp_insertEvent]
    exact hset _ _ (fun _ => rfl) fun _ => rfl
  cases outcome with
  | returned res =>
    simp only [finishTxn, Outcome.status]
    cases hok : res.ok with
    | true =>
      simp only [if_true]
      exact hterminal .succeeded res
    | false =>
      cases hre : res.retryable with
      | true =>
        simp only [Bool.false_eq_true, if_false, if_true, Bool.not_true]
        exact hretry _
      | false =>
        simp only [Bool.false_eq_true, if_false, if_true, Bool.not_false]
        exact hterminal .failed res
  | raised message => exact hretry message
  | invalid message eventData =>
    unfold finishTxn writePermanentFailure
    simp only [Program.wp_bind]
    refine wp_updateRun fun _ => ?_
    simp only [Program.wp_bind, wp_insertEvent, Program.pure_eq]
    exact wp_settleJob_runs (P := fun runs => ∀ r ∈ runs, r.runId ∈ [runId] → r.status = .failed)
      (hset _ _ (fun _ => rfl) fun _ => rfl)

/-- A claim wins exactly if the status of the run accepts it, and then the run is RUNNING. -/
theorem claimTxn_ends (runId jobId : Nat) :
    (claimTxn now runId jobId).wp (rowAccount older pick start) E
      (fun won v' => (won = true ↔ ∃ r ∈ v.tables.runs, r.runId = runId ∧
        r.status.claimable = true) ∧ (won = true → v'.tables.RunsAre [runId] .running)) v := by
  have hmatch : (∃ r ∈ v.tables.runs, r.runId = runId ∧ r.status.claimable = true) ↔
      (v.runIds fun r => r.runId == runId && r.status.claimable).isEmpty = false := by
    simp [View.runIds]
  have hids : ∀ id ∈ v.runIds (fun r => r.runId == runId && r.status.claimable), id = runId := by
    simp only [View.runIds, List.mem_map, List.mem_filter, Bool.and_eq_true, beq_iff_eq]
    rintro _ ⟨r, ⟨-, hid, -⟩, rfl⟩
    exact hid
  unfold claimTxn claim
  simp only [Program.wp_bind, wp_selectRuns, wp_updateRuns, hmatch]
  cases hempty : (v.runIds fun r => r.runId == runId && r.status.claimable).isEmpty with
  | true =>
    simp only [if_true, Program.pure_eq, Program.wp_ret, Bool.false_eq_true, if_false]
    exact ⟨by simp, False.elim⟩
  | false =>
    have hin : runId ∈ v.runIds fun r => r.runId == runId && r.status.claimable := by
      obtain ⟨id, hid⟩ := List.isEmpty_eq_false_iff_exists_mem.mp hempty
      exact hids id hid ▸ hid
    simp only [Bool.false_eq_true, if_false, Program.wp_bind, wp_insertEvent, Program.pure_eq,
      Program.wp_ret, if_true, wp_loadJobs, wp_selectRuns]
    refine fun _ _ => ⟨by simp, fun _ r' hr' hid' => ?_⟩
    obtain ⟨r, hr, rfl⟩ := List.mem_map.mp hr'
    split
    · rfl
    · next hne =>
      rw [if_neg hne] at hid'
      rw [List.mem_singleton.mp hid'] at hne
      exact absurd hin hne

end

end TaskScheduler
