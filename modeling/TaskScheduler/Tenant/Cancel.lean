import TaskScheduler.Tenant.Slice

/-! The transactions that keep to the rows of their user: the cancel with its settle cascade, and the
reads.  The cascade selects its jobs and runs by their job alone; it stays with the user because a
chained job has the owner of its trigger, and a run the owner of its job. -/

namespace TaskScheduler

open Lib

variable {u : String} {t t' : Tables} {d d' : Seq × Session} {pick pick' : Nat → Bool} {id : Nat}

/-- The id is of no job of another user in either database. -/
def Ours (u : String) (t t' : Tables) (id : Nat) : Prop := t.Mine u id ∧ t'.Mine u id

theorem Twins.ours_of_ties (hw : Twins u t t') {j : Job} (hu : j.userId = u) (h : t.Ties j)
    (h' : t'.Ties j) : Ours u t t' j.jobId := by
  obtain ⟨i, hi, hij⟩ := h
  obtain ⟨i', hi', hij'⟩ := h'
  have hleft := hw.left.mine_self hi ((Job.userId_of_ties hij).trans hu)
  have hright := hw.right.mine_self hi' ((Job.userId_of_ties hij').trans hu)
  simp only [Job.ties, Prod.mk.injEq] at hij hij'
  exact ⟨hij.1 ▸ hleft, hij'.1 ▸ hright⟩

theorem Twins.ours_parent (hw : Twins u t t') {c : Job} (hu : c.userId = u) (h : t.Ties c)
    (h' : t'.Ties c) (hp : c.triggerOnJobId = some id) : Ours u t t' id := by
  obtain ⟨i, hi, hij⟩ := h
  obtain ⟨i', hi', hij'⟩ := h'
  simp only [Job.ties, Prod.mk.injEq] at hij hij'
  exact ⟨hw.left.mine_parent hi (hij.2.1.trans hu) (hij.2.2.trans hp),
    hw.right.mine_parent hi' (hij'.2.1.trans hu) (hij'.2.2.trans hp)⟩

theorem Job.settle_ties (now : Int) (j : Job) : (j.settle now).ties = j.ties := rfl

theorem Job.cancel_ties (now : Int) (j : Job) : (j.cancel now).ties = j.ties := rfl

theorem JobRun.flip_ties (r : JobRun) : r.flip.ties = r.ties := rfl

/-! The rows that the statements select: by the id of a job, and by the user. -/

theorem Job.id_of_key (j : Job) (h : (j.jobId == id) = true) : j.jobId = id := beq_iff_eq.mp h

theorem Job.id_of_active (j : Job) (h : (j.jobId == id && j.state == .active) = true) :
    j.jobId = id := by
  rw [Bool.and_eq_true, beq_iff_eq] at h
  exact h.1

theorem JobRun.job_of_key (r : JobRun) (h : (r.jobId == id) = true) : r.jobId = id :=
  beq_iff_eq.mp h

theorem Tables.confines_own (s : Tables) (u : String) (jobId : Nat) :
    s.Confines u fun j => j.jobId == jobId && j.userId == u := by
  intro j _ hj
  rw [Bool.and_eq_true, beq_iff_eq, beq_iff_eq] at hj
  exact hj.2

/-! ### The settle cascade -/

theorem hasExecutingRun_twin (hw : Twins u t t') (h : Alike u t t' d d') (hid : Ours u t t' id) :
    Twin pick pick' u t t' (fun _ => Alike u t t') (hasExecutingRun id) d d' := by
  have hp : ∀ r : JobRun, (r.jobId == id && r.status.executing) = true → r.jobId = id := by
    intro r hr
    rw [Bool.and_eq_true, beq_iff_eq] at hr
    exact hr.1
  exact .bind ((h.selectRuns (hw.left.confines_runs hid.1 hp) (hw.right.confines_runs hid.2 hp)).mono
    fun _ _ _ h => h.1)

theorem triggerParentActive_twin (hw : Twins u t t') (h : Alike u t t' d d') {c : Job}
    (hu : c.userId = u) (ht : t.Ties c) (ht' : t'.Ties c) :
    Twin pick pick' u t t' (fun _ => Alike u t t') (triggerParentActive c) d d' := by
  unfold triggerParentActive
  cases hp : c.triggerOnJobId with
  | none => exact h
  | some parent =>
    have hours := hw.ours_parent hu ht ht' hp
    exact .bind ((h.selectJobs (Tables.Whole.confines_id hours.1 Job.id_of_key)
      (Tables.Whole.confines_id hours.2 Job.id_of_key)).mono fun _ _ _ h => h.1)

theorem settleDownstreams_twin (hw : Twins u t t') {check : Nat → Txn Bool}
    (hcheck : ∀ id d d', Ours u t t' id → Alike u t t' d d' →
      Twin pick pick' u t t' (fun _ => Alike u t t') (check id) d d')
    (h : Alike u t t' d d') (hid : Ours u t t' id) :
    Twin pick pick' u t t' (fun _ => Alike u t t') (settleDownstreams check id) d d' := by
  refine .bind ((h.selectJobs (hw.left.confines_child hid.1) (hw.right.confines_child hid.2)).mono ?_)
  rintro rows d₁ d₁' ⟨h₁, hrows⟩
  refine .forM (fun j hj d₂ d₂' h₂ => ?_) h₁
  obtain ⟨-, hu, ht, ht'⟩ := hrows j hj
  exact .bind ((hcheck j.jobId d₂ d₂' (hw.ours_of_ties hu ht ht') h₂).mono fun _ _ _ h => h)

theorem settleCheck_twin (hw : Twins u t t') (now : Int) (depth : Nat) (hid : Ours u t t' id)
    (h : Alike u t t' d d') :
    Twin pick pick' u t t' (fun _ => Alike u t t') (settleCheck now depth id) d d' := by
  induction depth generalizing id d d' with
  | zero => exact h
  | succ depth ih =>
    unfold settleCheck
    refine .bind ((h.loadJobs hw (Tables.Whole.confines_id hid.1 Job.id_of_key)
      (Tables.Whole.confines_id hid.2 Job.id_of_key) fun c j hcj hj => ?_).mono ?_)
    · rwa [show c.jobId = j.jobId from congrArg (·.1) hcj]
    rintro cs d₁ d₁' ⟨h₁, hcs⟩
    cases cs with
    | nil => exact h₁
    | cons c cs =>
      obtain ⟨-, hu, ht, ht'⟩ := hcs c List.mem_cons_self
      simp only [List.head?_cons]
      split
      · exact h₁
      split
      · exact h₁
      refine .bind ((h₁.advisoryLock id).mono fun _ d₂ d₂' h₂ => ?_)
      refine .bind ((hasExecutingRun_twin hw h₂ hid).mono fun busy d₃ d₃' h₃ => ?_)
      split
      · exact h₃
      refine .bind ((triggerParentActive_twin hw h₃ hu ht ht').mono fun waits d₄ d₄' h₄ => ?_)
      split
      · exact h₄
      refine .bind ((h₄.updateJobs hw (Tables.Whole.confines_id hid.1 Job.id_of_active)
        (Tables.Whole.confines_id hid.2 Job.id_of_active) (Job.settle_ties now)).mono
          fun settled d₅ d₅' h₅ => ?_)
      split
      · exact h₅
      exact .bind ((settleDownstreams_twin hw (fun id d d' => ih) h₅ hid).mono fun _ _ _ h => h)

/-! ### The cancel -/

theorem terminalStatusHint_twin (hw : Twins u t t') (h : Alike u t t' d d') (hid : Ours u t t' id) :
    Twin pick pick' u t t' (fun _ => Alike u t t') (terminalStatusHint id) d d' := by
  exact .bind ((h.selectRuns (hw.left.confines_runs hid.1 JobRun.job_of_key)
    (hw.right.confines_runs hid.2 JobRun.job_of_key)).mono fun _ _ _ h => h.1)

theorem flipRun_twin (hw : Twins u t t') {run : JobRun} (hu : run.userId = u) (ht : t.RunTies run)
    (ht' : t'.RunTies run) (hrow : ∃ j ∈ t.jobs, j.jobId = id ∧ j.userId = u)
    (hrow' : ∃ j ∈ t'.jobs, j.jobId = id ∧ j.userId = u) (h : Alike u t t' d d') :
    Twin pick pick' u t t' (fun _ => Alike u t t') (flipRun id run) d d' := by
  unfold flipRun
  split
  · exact .bind ((h.updateRuns hw (hw.left.confines_run ht hu) (hw.right.confines_run ht' hu)
      JobRun.flip_ties).mono fun _ _ _ h₁ => h₁.insertEvent hrow hrow')
  · exact h

theorem cancelRuns_twin (hw : Twins u t t') (now : Int) (depth : Nat)
    (hrow : ∃ j ∈ t.jobs, j.jobId = id ∧ j.userId = u)
    (hrow' : ∃ j ∈ t'.jobs, j.jobId = id ∧ j.userId = u) (h : Alike u t t' d d')
    (hid : Ours u t t' id) :
    Twin pick pick' u t t' (fun _ => Alike u t t') (cancelRuns now depth id) d d' := by
  unfold cancelRuns
  refine .bind ((h.selectRuns (hw.left.confines_runs hid.1 JobRun.job_of_key)
    (hw.right.confines_runs hid.2 JobRun.job_of_key)).mono ?_)
  rintro runs d₁ d₁' ⟨h₁, hruns⟩
  refine .bind ((Program.InStep.forM (I := Alike u t t') (fun r hr d₂ d₂' h₂ => ?_) h₁).mono
    fun _ d₃ d₃' h₃ => ?_)
  · obtain ⟨-, hu, ht, ht'⟩ := hruns r hr
    exact flipRun_twin hw hu ht ht' hrow hrow' h₂
  · exact settleDownstreams_twin hw (fun id d d' hid h => settleCheck_twin hw now depth hid h) h₃ hid

/-- `cancel_job` goes the same way in two databases that agree on the rows of its user. -/
theorem cancelJob_twin (hw : Twins u t t') (now : Int) (depth jobId : Nat)
    (h : Alike u t t' d d') :
    Twin pick pick' u t t' (fun _ => Alike u t t') (cancelJob now depth u jobId) d d' := by
  unfold cancelJob
  refine .bind ((h.loadJobs hw (t.confines_own u jobId) (t'.confines_own u jobId)
    fun c j hcj hj => ?_).mono ?_)
  · simp only [Job.ties, Prod.mk.injEq] at hcj
    rwa [hcj.1, hcj.2.1]
  rintro cs d₁ d₁' ⟨h₁, hcs⟩
  cases cs with
  | nil => exact h₁
  | cons job cs =>
    obtain ⟨hjob, hu, ht, ht'⟩ := hcs job List.mem_cons_self
    simp only [Bool.and_eq_true, beq_iff_eq] at hjob
    have hours := hw.ours_of_ties hu ht ht'
    rw [hjob.1] at hours
    have hrow : ∀ s : Tables, s.Ties job → ∃ j ∈ s.jobs, j.jobId = jobId ∧ j.userId = u := by
      rintro s ⟨j, hj, htie⟩
      simp only [Job.ties, Prod.mk.injEq] at htie
      exact ⟨j, hj, htie.1.trans hjob.1, htie.2.1.trans hu⟩
    have hhint : ∀ d₂ d₂', Alike u t t' d₂ d₂' → Twin pick pick' u t t' (fun _ => Alike u t t')
        (do
          let hint ← terminalStatusHint jobId
          Txn.raise (.invalidState hint) : Txn CancelledView) d₂ d₂' :=
      fun d₂ d₂' h₂ => .bind ((terminalStatusHint_twin hw h₂ hours).mono fun _ _ _ h => h)
    simp only [List.head?_cons]
    split
    · exact h₁
    · exact hhint d₁ d₁' h₁
    · refine .bind ((h₁.updateJobs hw (Tables.Whole.confines_id hours.1 Job.id_of_active)
        (Tables.Whole.confines_id hours.2 Job.id_of_active) (Job.cancel_ties now)).mono
          fun cas d₂ d₂' h₂ => ?_)
      split
      · -- the compare-and-set has lost, and the row says to whom
        refine .bind ((h₂.selectJobs (Tables.Whole.confines_id hours.1 Job.id_of_key)
          (Tables.Whole.confines_id hours.2 Job.id_of_key)).mono fun rows d₃ d₃' h₃ => ?_)
        split
        · exact h₃.1
        · split
          · exact h₃.1
          · exact hhint d₃ d₃' h₃.1
      · exact .bind ((cancelRuns_twin hw now depth (hrow t ht) (hrow t' ht') h₂ hours).mono
          fun _ _ _ h => h)

/-! ### The reads -/

theorem getJobWithRuns_twin (hw : Twins u t t') (jobId : Nat) (includeRuns : Bool) (runLimit : Nat)
    (h : Alike u t t' d d') : Twin pick pick' u t t' (fun _ => Alike u t t')
      (getJobWithRuns u jobId includeRuns runLimit) d d' := by
  unfold getJobWithRuns
  refine .bind ((h.loadJobs hw (t.confines_own u jobId) (t'.confines_own u jobId)
    fun c j hcj hj => ?_).mono ?_)
  · simp only [Job.ties, Prod.mk.injEq] at hcj
    rwa [hcj.1, hcj.2.1]
  rintro cs d₁ d₁' ⟨h₁, hcs⟩
  cases cs with
  | nil => exact h₁
  | cons job cs =>
    obtain ⟨hjob, hu, ht, ht'⟩ := hcs job List.mem_cons_self
    simp only [Bool.and_eq_true, beq_iff_eq] at hjob
    have hours := hw.ours_of_ties hu ht ht'
    rw [hjob.1] at hours
    exact .bind ((h₁.selectRuns (hw.left.confines_runs hours.1 JobRun.job_of_key)
      (hw.right.confines_runs hours.2 JobRun.job_of_key)).mono fun _ _ _ h => h.1)

theorem readUpstream_twin {δ : Type} (loads : String → Option δ) (runId : Nat)
    (h : Alike u t t' d d') : Twin pick pick' u t t' (fun _ => Alike u t t')
      (readUpstream loads runId u) d d' := by
  have hown : ∀ s : Tables, s.ConfinesRuns u fun r => r.runId == runId && r.userId == u := by
    intro s r _ hr
    simp only [Bool.and_eq_true, beq_iff_eq] at hr
    exact hr.2
  unfold readUpstream
  refine .bind ((h.selectRuns (hown t) (hown t')).mono fun rows d₁ d₁' h₁ => ?_)
  split
  · exact h₁.1
  · split
    · split
      · exact h₁.1
      · exact h₁.1
    · split
      · exact h₁.1
      · exact h₁.1

end TaskScheduler
