import TaskScheduler.Interleave.Spawning
import TaskScheduler.Tenant.Noninterference

/-! What a cancel puts an end to.  A transaction creates runs only for the jobs that it has loaded,
and it has loaded none as active that was cancelled when it began; so once the cancel of a job has
committed, the job gets no run any more, and nothing follows its runs down the chain. -/

namespace TaskScheduler

open Lib

/-! ### Where the entities of a session come from -/

/-- Every entity of the session is a later version of a committed row. -/
def Session.Origins (t : Tables) (ses : Session) : Prop :=
  ∀ c ∈ ses.loaded, ∃ j ∈ t.jobs, j.Since c

section Exec

variable {libs : Libs} {k : Kind} {t : Tables} {ses : Session}

/-- A transaction that is no creation inserts no job. -/
theorem Kept.inserted_nil {τ : Terms} {held : Held} {loaded : List Job}
    (h : Kept τ libs k ses.writes held loaded t) (hk : k.creates = false) : ses.inserted = [] := by
  refine List.eq_nil_iff_forall_not_mem.mpr fun row hrow => ?_
  obtain ⟨t', hcreates, -⟩ := h.replays.mem (Session.mem_inserted.mp hrow)
  rw [hk] at hcreates
  cases hcreates

theorem exec_origins {pick : Nat → Bool} {others : List Session} {seq seq' : Seq} {ses' : Session}
    (hk : k.creates = false) (s : Stmt) {r : Reply s}
    (hkept : Site.Kept .free libs k ⟨t, seq, ses⟩) (h : ses.Origins t)
    (hexec : s.exec pick others t (seq, ses) = some (r, seq', ses')) : ses'.Origins t := by
  have hview : ∀ c ∈ (ses.view t).jobs, ∃ j ∈ t.jobs, j.Since c := by
    intro c hc
    have hjobs := hkept.now.jobs
    rw [hkept.now.inserted_nil hk, List.append_nil] at hjobs
    exact pointwise_left hjobs hc
  cases s with
  | loadJobs p =>
    cases hexec
    intro c hc
    rcases List.mem_append.mp hc with hc | hc
    · exact h c hc
    · exact hview c (List.mem_filter.mp (List.mem_filter.mp hc).1).1
  | insertJob row | insertRun row =>
    simp only [Stmt.exec] at hexec
    split at hexec
    · cases hexec
    · split at hexec <;> cases hexec <;> exact h
  | updateJobs p set | updateRuns p set | updateEvents p set | advisoryLock key =>
    simp only [Stmt.exec] at hexec
    split at hexec <;> cases hexec
    exact h
  | rollbackTo =>
    simp only [Stmt.exec] at hexec
    split at hexec <;> cases hexec <;> exact h
  | lockRuns p n | insertEvent row | savepoint | release | selectJobs p | ancestors a b
  | selectRuns p | selectEvents p n =>
    cases hexec
    exact h

end Exec

/-! ### The runs that a transaction creates -/

/-- The run is of the job, or follows a run of the job in a chain. -/
def Tables.Stems (t : Tables) (jobId : Nat) (r : JobRun) : Prop :=
  r.jobId = jobId ∨ ∃ x ∈ t.runs, x.jobId = jobId ∧ r.waitForRunId = some x.runId

/-- A job that was cancelled before is seen as it was. -/
theorem Job.Since.of_cancelled {c j : Job} (h : j.Since c) (hj : j.state = .cancelled) : c = j := by
  rcases h with rfl | ⟨hactive, -⟩
  · rfl
  · rw [hj] at hactive
    cases hactive

section Commit

variable {libs : Libs} {k : Kind} {t : Tables} {seq : Seq} {ses : Session} {won : Bool}

/-- What a session keeps of the committed runs while it writes: each of them is there under its key,
and a run under its key is of its job. -/
theorem Commits.keeps_keys (h : Commits .free libs k t seq ses won) (hk : Coherent t seq) {w : Write}
    (hw : w ∈ ses.writes) : ∃ t', (Linked t' ∧ ∀ x ∈ t.runs, ∀ r ∈ t'.runs, r.runId = x.runId →
      r.jobId = x.jobId) ∧ Valid .free libs k ses.held ses.loaded t' w := by
  refine h.kept.now.replays.mem_of_keeps (fun t₁ w hw hI hv => ⟨hI.1.apply hv, ?_⟩)
    ⟨hk.linked, fun x hx r hr hid => by rw [hk.run_eq hr hx hid]⟩ hw
  obtain ⟨-, hrun⟩ := hI
  cases w with
  | insertRun row =>
    intro x hx r hr hid
    rcases List.mem_append.mp hr with hr | hr
    · exact hrun x hx r hr hid
    · -- the key of a new run is not one of a committed run
      rw [List.mem_singleton.mp hr] at hid
      refine absurd (Tables.mem_keys_run.mpr ⟨x, hx, hid.symm⟩) (h.fresh.new (.run row.runId) ?_)
      exact List.mem_filterMap.mpr ⟨_, hw, rfl⟩
  | updateRuns ids set =>
    intro x hx r hr hid
    obtain ⟨r₁, hr₁, rfl⟩ := List.mem_map.mp hr
    split at hid
    · next hin =>
      rw [if_pos hin, (hv.1 r₁).jobId]
      exact hrun x hx r₁ hr₁ ((hv.1 r₁).runId.symm.trans hid)
    · next hin =>
      rw [if_neg hin]
      exact hrun x hx r₁ hr₁ hid
  | _ => exact hrun

/-- A transaction creates no run that stems from a job which was cancelled when it began. -/
theorem Commits.not_stems (h : Commits .free libs k t seq ses won) (hk : Coherent t seq)
    (hcreates : k.creates = false) (horigins : ses.Origins t) {row : JobRun}
    (hrow : .insertRun row ∈ ses.writes) {j : Job} (hj : j ∈ t.jobs) (hcan : j.state = .cancelled) :
    ¬t.Stems j.jobId row := by
  -- an entity of the job is the cancelled row
  have hentity : ∀ c ∈ ses.loaded, c.jobId = j.jobId → c = j := by
    intro c hc hid
    obtain ⟨i, hi, hs⟩ := horigins c hc
    have heq : i = j := hk.job_eq hi hj (hs.jobId.symm.trans hid)
    subst heq
    exact hs.of_cancelled hcan
  obtain ⟨t', ⟨hlinked, hkeys⟩, hnew⟩ := h.keeps_keys hk hrow
  rintro (hid | ⟨x, hx, hxj, hwait⟩)
  · cases hnew.source with
    | initial hinitial =>
      rw [hcreates] at hinitial
      cases hinitial
    | successor hc hcid hlive =>
      rw [hentity _ hc (hcid.trans hid), ← Option.not_isSome_iff_eq_none] at hlive
      exact hlive ((hk.lifecycle j hj).cancelled.mp hcan)
    | upstream hc hcid hactive =>
      rw [hentity _ hc (hcid.trans hid), hcan] at hactive
      cases hactive
  · cases hnew.source with
    | initial hinitial =>
      rw [hcreates] at hinitial
      cases hinitial
    | successor _ _ _ _ hnone =>
      rw [hnone] at hwait
      cases hwait
    | upstream _ _ _ _ hp hpid hlive he _ hsome =>
      -- the run that it waits for is of the upstream job
      rw [hsome, Option.some.injEq] at hwait
      obtain ⟨r, hr, hrun, hrj⟩ := hlinked.event_run _ he
      have hjob := hkeys x hx r hr (hrun.trans hwait)
      rw [hentity _ hp (by rw [hpid, ← hrj, hjob, hxj])] at hlive
      exact hlive hcan

/-- The runs after a commit were there, or it has created them. -/
theorem Commits.runs_cases (h : Commits .free libs k t seq ses won) :
    ∀ r' ∈ (ses.view t).runs, (∃ r ∈ t.runs, r.SameRun r') ∨
      ∃ row, .insertRun row ∈ ses.writes ∧ row.SameRun r' := by
  refine h.kept.now.replays.invariant (P := fun t' => ∀ r' ∈ t'.runs, (∃ r ∈ t.runs, r.SameRun r') ∨
    ∃ row, .insertRun row ∈ ses.writes ∧ row.SameRun r') (fun t₁ w hw hI hv => ?_)
    fun r hr => .inl ⟨r, hr, .refl r⟩
  cases w with
  | insertRun row =>
    intro r' hr'
    rcases List.mem_append.mp hr' with hr' | hr'
    · exact hI r' hr'
    · exact .inr ⟨row, hw, List.mem_singleton.mp hr' ▸ .refl row⟩
  | updateRuns ids set =>
    intro r' hr'
    obtain ⟨r₁, hr₁, rfl⟩ := List.mem_map.mp hr'
    have hs : r₁.SameRun (if r₁.runId ∈ ids then set r₁ else r₁) := by
      split
      · exact hv.1 r₁
      · exact .refl r₁
    rcases hI r₁ hr₁ with ⟨r, hr, hr₁⟩ | ⟨row, hrow, hr₁⟩
    · exact .inl ⟨r, hr, hr₁.trans hs⟩
    · exact .inr ⟨row, hrow, hr₁.trans hs⟩
  | _ => exact hI

end Commit

/-! ### The transaction of the cancel -/

section Transaction

variable {pick : Nat → Bool} {start now : Int} {v : View}

/-- A program that leaves the runs alone. -/
def KeepsRuns (pick : Nat → Bool) (start : Int) {α : Type} (t : Txn α) : Prop :=
  ∀ v : View, t.wp (rowAccount Job.Since pick start) (fun _ _ => True)
    (fun _ v' => v'.tables.runs = v.tables.runs) v

theorem KeepsRuns.bind {α β : Type} {t : Txn α} {f : α → Txn β} (ht : KeepsRuns pick start t)
    (hf : ∀ a, KeepsRuns pick start (f a)) : KeepsRuns pick start (t >>= f) := by
  intro v
  rw [Program.wp_bind]
  refine Program.wp_mono (ht v) fun a v₁ h₁ => ?_
  exact Program.wp_mono (hf a v₁) fun _ v₂ h₂ => h₂.trans h₁

theorem KeepsRuns.ret {α : Type} (a : α) : KeepsRuns pick start (Program.ret a : Txn α) :=
  fun _ => rfl

theorem KeepsRuns.forM {β : Type} {f : β → Txn PUnit} (hf : ∀ b, KeepsRuns pick start (f b))
    (bs : List β) : KeepsRuns pick start (bs.forM f) := by
  induction bs with
  | nil => exact .ret _
  | cons b bs ih =>
    rw [Program.forM_cons]
    exact (hf b).bind fun _ => ih

theorem settleDownstreams_keepsRuns {check : Nat → Txn Bool}
    (hcheck : ∀ id, KeepsRuns pick start (check id)) (parent : Nat) :
    KeepsRuns pick start (settleDownstreams check parent) := by
  refine .bind (fun v => ?_) fun rows => .forM (fun d => (hcheck d.jobId).bind fun _ => .ret _) rows
  simp

theorem settleCheck_keepsRuns (now : Int) (depth id : Nat) :
    KeepsRuns pick start (settleCheck now depth id) := by
  induction depth generalizing id with
  | zero => exact fun _ => trivial
  | succ depth ih =>
    unfold settleCheck
    refine .bind (fun v => by simp) fun rows => ?_
    cases rows.head? with
    | none => exact .ret _
    | some job =>
      dsimp only
      split
      · exact .ret _
      split
      · exact .ret _
      refine .bind (fun v => by simp [acquireJobLock]) fun _ => .bind (fun v => ?_) fun busy => ?_
      · exact wp_hasExecutingRun fun _ _ => rfl
      split
      · exact .ret _
      refine .bind (fun v => ?_) fun parent => ?_
      · unfold triggerParentActive
        cases job.triggerOnJobId with
        | none => rfl
        | some p => simp [Program.wp_bind]
      split
      · exact .ret _
      refine .bind (fun v => ?_) fun settled => ?_
      · rw [wp_updateJobs]
        refine ⟨fun j hj => .inr ⟨?_, now, .inl rfl⟩, rfl⟩
        simp only [Bool.and_eq_true, beq_iff_eq] at hj
        exact hj.2
      split
      · exact .ret _
      · exact (settleDownstreams_keepsRuns ih id).bind fun _ => .ret _

/-- The runs of the job that still execute are RUNNING, and as they were. -/
def Tables.FlippedTo (t t' : Tables) (jobId : Nat) : Prop :=
  ∀ r ∈ t'.runs, r.jobId = jobId → r.status.executing = true → r ∈ t.runs ∧ r.status = .running

theorem RunStatus.running_of_not_cancellable {s : RunStatus} (hex : s.executing = true)
    (hcan : s.cancellable = false) : s = .running := by
  cases s with
  | running => rfl
  | pending | queued | retrying => cases hcan
  | succeeded | failed | cancelled => cases hex

/-- The flip loop, and the settle of the downstreams after it. -/
theorem cancelRuns_flips {depth jobId : Nat} (hk : (v.tables.runs.map (·.runId)).Nodup) :
    (cancelRuns now depth jobId).wp (rowAccount Job.Since pick start) (fun _ _ => True)
      (fun _ v' => v.tables.FlippedTo v'.tables jobId) v := by
  unfold cancelRuns
  simp only [Program.wp_bind, wp_selectRuns]
  -- the runs that are still to be flipped are as they were read
  refine Program.wp_mono (Program.wp_forM (Q := fun _ w => v.tables.FlippedTo w.tables jobId)
    (fun rest w => (w.tables.runs.map (·.runId)).Nodup ∧ (∀ r ∈ rest, r.jobId = jobId) ∧
      (∀ r ∈ w.tables.runs, r.jobId = jobId → r.status.executing = true → r ∈ v.tables.runs) ∧
      ∀ r ∈ w.tables.runs, r.jobId = jobId → r.status.cancellable = true → r ∈ rest)
    (fun r rest w hI => ?_) (fun w hI r hr hid hex => ?_) _ v ⟨hk, ?_, ?_, ?_⟩) fun _ w hw => ?_
  · obtain ⟨hnd, hrest, hold, hcan⟩ := hI
    unfold flipRun
    split
    · rw [Program.wp_bind]
      refine wp_updateRun fun _ => ?_
      rw [wp_insertEvent]
      have hback : ∀ x' ∈ (w.tables.setRun r.runId JobRun.flip).runs,
          x'.status.executing = true → x' ∈ w.tables.runs ∧ x'.runId ≠ r.runId := by
        intro x' hx' hex
        obtain ⟨x, hx, rfl⟩ := Tables.mem_setRun.mp hx'
        split at hex
        · cases hex
        · next hne =>
          rw [if_neg hne]
          exact ⟨hx, hne⟩
      refine ⟨?_, fun x hx => hrest x (List.mem_cons_of_mem _ hx), fun x hx hid hex => ?_,
        fun x hx hid hxc => ?_⟩
      · exact Tables.nodup_setRun hnd r.runId JobRun.flip fun _ => rfl
      · exact hold x (hback x hx hex).1 hid hex
      · obtain ⟨hx, hne⟩ := hback x hx (RunStatus.executing_of_cancellable hxc)
        rcases List.mem_cons.mp (hcan x hx hid hxc) with rfl | hin
        · exact absurd rfl hne
        · exact hin
    · next hnot =>
      refine ⟨hnd, fun x hx => hrest x (List.mem_cons_of_mem _ hx), hold, fun x hx hid hxc => ?_⟩
      rcases List.mem_cons.mp (hcan x hx hid hxc) with rfl | hin
      · exact absurd hxc hnot
      · exact hin
  · obtain ⟨-, -, hold, hcan⟩ := hI
    refine ⟨hold r hr hid hex, RunStatus.running_of_not_cancellable hex ?_⟩
    rw [← Bool.not_eq_true]
    intro hxc
    cases hcan r hr hid hxc
  · intro r hr
    simpa using (List.mem_filter.mp hr).2
  · exact fun r hr _ _ => hr
  · intro r hr hid _
    exact List.mem_filter.mpr ⟨hr, by simpa using hid⟩
  · refine Program.wp_mono (settleDownstreams_keepsRuns (settleCheck_keepsRuns now depth) jobId w)
      fun _ v' h' => ?_
    unfold Tables.FlippedTo
    rw [h']
    exact hw

/-- A cancel that wins flips every run of the job that is not RUNNING. -/
theorem cancelJob_flips {depth jobId : Nat} {userId : String} (hk : Coherent v.tables v.seq) :
    (cancelJob now depth userId jobId).wp (rowAccount Job.Since pick start) (fun _ _ => True)
      (fun _ v' => v.tables.Active jobId → v.tables.FlippedTo v'.tables jobId) v := by
  unfold cancelJob
  simp only [Program.wp_bind, wp_loadJobs]
  intro rows hrows
  rcases loaded_head hrows with ⟨hnone, -⟩ | ⟨c, hsome, r, hr, hp, hcr⟩
  · rw [hnone]
    trivial
  rw [hsome]
  dsimp only
  simp only [Bool.and_eq_true, beq_iff_eq] at hp
  cases hcs : c.state with
  | cancelled =>
    rintro ⟨j, hj, hid, hactive⟩
    rw [hk.job_eq hj hr (hid.trans hp.1.symm), hcr.of_cancelled hcs, hcs] at hactive
    cases hactive
  | completed =>
    simp only [terminalStatusHint, Program.wp_bind, wp_selectRuns, Program.pure_eq, Program.wp_ret,
      wp_txn_raise]
  | active =>
    simp only [Program.wp_bind, wp_updateJobs]
    refine ⟨fun j hj => .inr ⟨by simp at hj; exact hj.2, now, .inr rfl⟩, ?_⟩
    split
    · next hempty =>
      -- the compare-and-set finds no active row
      have hnot : ¬v.tables.Active jobId := by
        rintro ⟨j, hj, hid, hactive⟩
        rw [View.jobIds, List.isEmpty_iff, List.map_eq_nil_iff, List.filter_eq_nil_iff] at hempty
        exact hempty j hj (by simp [hid, hactive])
      simp only [Program.wp_bind, wp_selectJobs]
      split
      · trivial
      · split
        · exact fun h => absurd h hnot
        · simp only [terminalStatusHint, Program.wp_bind, wp_selectRuns, Program.pure_eq,
            Program.wp_ret, wp_txn_raise]
    · rw [Program.wp_bind]
      exact Program.wp_mono (cancelRuns_flips hk.runs) fun _ v' h _ => h

end Transaction

namespace Sys

variable {cfg : Config} {σ σ' σ'' : Sys}

/-- The run of a new job is of that job. -/
theorem createEnds_runs {t t' : Tables} {seq : Seq} {start : Int} {args : CreateArgs}
    {decision : Except Err (Job ⊕ CreatePlan)} {id : Nat} (hk : Coherent t seq)
    (hends : CreateEnds t seq start args decision id t') {j : Job} (hj : j ∈ t.jobs) :
    ∀ r' ∈ t'.runs, t.Stems j.jobId r' → r' ∈ t.runs := by
  match decision with
  | .error e => exact hends.elim
  | .ok (.inl job) =>
    rw [hends.2]
    exact fun r hr _ => hr
  | .ok (.inr plan) =>
    rw [hends.2]
    unfold Tables.withNew
    dsimp only
    split
    · exact fun r hr _ => hr
    · intro r hr hstems
      rcases List.mem_append.mp hr with hr | hr
      · exact hr
      · rw [List.mem_singleton.mp hr] at hstems
        rcases hstems with hid | ⟨x, -, -, hwait⟩
        · have hlt := hk.jobs.below j hj
          change seq.jobs = j.jobId at hid
          omega
        · cases hwait

/-- A transaction that runs at once creates no run that stems from a cancelled job. -/
theorem atomic_stems (hreach : Reach cfg AtomicOk σ) {k : Kind} {start : Int} {pick : Nat → Bool}
    (hstep : σ.step cfg (.atomic k start pick) = some σ') {j : Job} (hj : j ∈ σ.tables.jobs)
    (hcan : j.state = .cancelled) :
    ∀ r' ∈ σ'.tables.runs, σ.tables.Stems j.jobId r' → ∃ r ∈ σ.tables.runs, r.SameRun r' := by
  have hσ := hreach.interleaved
  obtain ⟨henabled, ⟨seq, -, rfl⟩ | ⟨won, seq, ses, hrun, rfl⟩⟩ := step_atomic hstep
  · exact fun r hr _ => ⟨r, hr, .refl r⟩
  cases hk : k.creates with
  | true =>
    cases k with
    | create now args =>
      have hsound := hreach.sound_db
      have hdecides : (createJob cfg.libs now args).wp (rowAccount Eq pick start) _ _
          ⟨σ.tables, σ.seq, none⟩ := wp_createJob hsound.coherent hsound.whole
      have hwp : ((Kind.create now args).prog cfg).wp (rowAccount Eq pick start) _
          (fun _ v' => ∀ r' ∈ v'.tables.runs, σ.tables.Stems j.jobId r' → r' ∈ σ.tables.runs)
          ⟨σ.tables, σ.seq, none⟩ := wp_quiet (Program.wp_mono hdecides
            fun id v' hends => createEnds_runs hsound.coherent hends hj)
      obtain ⟨v, hv, -, hpost⟩ := run_atomic eq_aging hsound.coherent.jobs hwp hrun
      intro r' hr' hstems
      exact ⟨r', hpost r' (hv ▸ hr') hstems, .refl r'⟩
    | _ => cases hk
  | false =>
    obtain ⟨-, -, horigins, hcommits⟩ := hσ.atomic henabled (Session.Origins σ.tables)
      (fun c hc => by cases hc)
      (fun s q ss r q' ss' hkept _ h hexec => exec_origins hk s hkept h hexec) hrun
    have hc := hcommits won rfl
    have hcoh : Coherent σ.tables seq :=
      hσ.coherent.burn (run_seq_le _ _ hrun)
    intro r' hr' hstems
    rcases hc.runs_cases r' hr' with hold | ⟨row, hrow, hs⟩
    · exact hold
    · refine absurd ?_ (hc.not_stems hcoh hk horigins hrow hj hcan)
      unfold Tables.Stems at hstems ⊢
      rwa [hs.jobId, hs.waitForRunId] at hstems

/-- What a run of the system leaves of a cancelled job: its row as it is, no new run that stems from
it, and no run that executes again. -/
structure Quiet (j : Job) (σ σ' : Sys) : Prop where
  job : j ∈ σ'.tables.jobs
  runs : ∀ r' ∈ σ'.tables.runs, σ.tables.Stems j.jobId r' → ∃ r ∈ σ.tables.runs, r.SameRun r' ∧
    (r'.status.executing = true → r.status.executing = true)
  stays : ∀ r ∈ σ.tables.runs, ∃ r' ∈ σ'.tables.runs, r.SameRun r'

theorem Quiet.step {j : Job} (h : Quiet j σ σ') (hreach : Reach cfg AtomicOk σ')
    (hcan : j.state = .cancelled) {a : Act} (hok : σ'.AtomicOk a)
    (hstep : σ'.step cfg a = some σ'') : Quiet j σ σ'' := by
  cases a with
  | start | statement | commit | abort => exact hok.elim
  | crash runId jobId =>
    cases hstep
    exact ⟨h.job, h.runs, h.stays⟩
  | atomic k start pick =>
    have hbase := (hreach.changes (fun _ _ h => h) (fun _ => True) (fun _ _ _ _ _ => trivial)
      (fun _ => True) trivial fun _ _ _ _ _ _ _ => trivial).1
    obtain ⟨hpath, -⟩ := atomic_changes hstep hbase.coherent hbase.live hok
    have hlive := hpath.noRevival hbase.coherent
    obtain ⟨hjobs, hforward⟩ := step_forward hreach.interleaved hstep
    refine ⟨?_, fun r₂ hr₂ hstems => ?_, fun r hr => ?_⟩
    · obtain ⟨j', hj', hs⟩ := hjobs j h.job
      exact hs.of_cancelled hcan ▸ hj'
    · -- an upstream run of the job is still there
      have hstems' : σ'.tables.Stems j.jobId r₂ := by
        rcases hstems with hid | ⟨x, hx, hxj, hwait⟩
        · exact .inl hid
        · obtain ⟨x', hx', hs⟩ := h.stays x hx
          exact .inr ⟨x', hx', hs.jobId.trans hxj, hwait.trans (congrArg some hs.runId.symm)⟩
      obtain ⟨r₁, hr₁, hs₁⟩ := atomic_stems hreach hstep h.job hcan r₂ hr₂ hstems'
      have hstems₁ : σ.tables.Stems j.jobId r₁ := by
        unfold Tables.Stems at hstems ⊢
        rwa [hs₁.jobId, hs₁.waitForRunId] at hstems
      obtain ⟨r, hr, hs, hex⟩ := h.runs r₁ hr₁ hstems₁
      exact ⟨r, hr, hs.trans hs₁, fun he => hex (hlive r₁ hr₁ r₂ hr₂ hs₁.runId he)⟩
    · obtain ⟨r', hr', hs⟩ := h.stays r hr
      obtain ⟨r₂, hr₂, hs₂⟩ := hforward r' hr'
      exact ⟨r₂, hr₂, hs.trans hs₂⟩

theorem Quiet.steps {j : Job} (hreach : Reach cfg AtomicOk σ) (hj : j ∈ σ.tables.jobs)
    (hcan : j.state = .cancelled) (hsteps : Steps cfg AtomicOk σ σ') :
    Quiet j σ σ' ∧ Reach cfg AtomicOk σ' := by
  induction hsteps with
  | refl => exact ⟨⟨hj, fun r hr _ => ⟨r, hr, .refl r, id⟩, fun r hr => ⟨r, hr, .refl r⟩⟩, hreach⟩
  | step _ hok hstep ih => exact ⟨ih.1.step ih.2 hcan hok hstep, ih.2.step hok hstep⟩

/-- The transaction of a cancel that goes through leaves of the job's runs only those to execute
that were RUNNING. -/
theorem cancel_flips (hreach : Reach cfg AtomicOk σ) {now start : Int} {userId : String} {jobId : Nat}
    {pick : Nat → Bool} (hstep : σ.step cfg (.atomic (.cancel now userId jobId) start pick) = some σ')
    (hactive : σ.tables.Active jobId) (hcan : σ'.tables.Cancelled jobId) :
    σ.tables.FlippedTo σ'.tables jobId := by
  have hcoh := hreach.interleaved.coherent
  obtain ⟨-, ⟨seq, -, rfl⟩ | ⟨won, seq, ses, hrun, rfl⟩⟩ := step_atomic hstep
  · -- a transaction that is rolled back cancels nothing
    obtain ⟨j, hj, hid, hs⟩ := hactive
    obtain ⟨i, hi, hii, his⟩ := hcan
    rw [hcoh.job_eq hi hj (hii.trans hid.symm), hs] at his
    cases his
  · have hflips : (cancelJob now cfg.depth userId jobId).wp (rowAccount Job.Since pick start) _
        (fun _ v' => σ.tables.Active jobId → σ.tables.FlippedTo v'.tables jobId)
        ⟨σ.tables, σ.seq, none⟩ := cancelJob_flips hcoh
    have hwp : ((Kind.cancel now userId jobId).prog cfg).wp (rowAccount Job.Since pick start) _
        (fun _ v' => σ.tables.Active jobId → σ.tables.FlippedTo v'.tables jobId)
        ⟨σ.tables, σ.seq, none⟩ := wp_quiet (Program.wp_mono hflips fun _ _ h => h)
    obtain ⟨v, hv, -, hpost⟩ := run_atomic since_aging hcoh.jobs hwp hrun
    exact hv ▸ hpost hactive

/-- Once the cancel of a job has committed, the job stays cancelled and gets no run any more, no run
follows one of its runs down the chain, and none of its runs that was not RUNNING then executes. -/
theorem cancel_is_effective (hreach : Reach cfg AtomicOk σ) {now start : Int} {userId : String}
    {jobId : Nat} {pick : Nat → Bool}
    (hstep : σ.step cfg (.atomic (.cancel now userId jobId) start pick) = some σ')
    (hactive : σ.tables.Active jobId) (hcan : σ'.tables.Cancelled jobId)
    (hsteps : Steps cfg AtomicOk σ' σ'') : σ''.tables.Cancelled jobId ∧
      ∀ r'' ∈ σ''.tables.runs, σ''.tables.Stems jobId r'' →
        (∃ r ∈ σ'.tables.runs, r.SameRun r'') ∧
        ∀ r ∈ σ.tables.runs, r.runId = r''.runId → r.jobId = jobId → r.status ≠ .running →
          r''.status.terminal = true := by
  have hreach' : Reach cfg AtomicOk σ' :=
    hreach.step (a := .atomic (.cancel now userId jobId) start pick) trivial hstep
  have hcoh := hreach.interleaved.coherent
  have hcoh' := hreach'.interleaved.coherent
  obtain ⟨j, hj, rfl, hs⟩ := hcan
  obtain ⟨hquiet, hreach''⟩ := Quiet.steps hreach' hj hs hsteps
  refine ⟨⟨j, hquiet.job, rfl, hs⟩, fun r'' hr'' hstems => ?_⟩
  -- a run of the job, now, was there when the cancel committed
  have hstems' : σ'.tables.Stems j.jobId r'' := by
    rcases hstems with hid | ⟨x, hx, hxj, hwait⟩
    · exact .inl hid
    · obtain ⟨x', hx', hsx, -⟩ := hquiet.runs x hx (.inl hxj)
      exact .inr ⟨x', hx', hsx.jobId.symm.trans hxj, hwait.trans (congrArg some hsx.runId)⟩
  obtain ⟨r', hr', hsr, hex⟩ := hquiet.runs r'' hr'' hstems'
  refine ⟨⟨r', hr', hsr⟩, fun r hr hrun hjob hnot => ?_⟩
  cases hterm : r''.status.terminal with
  | true => rfl
  | false =>
    have hex' := hex (by rw [RunStatus.executing_eq_not_terminal, hterm]; rfl)
    have hr'j : r'.jobId = j.jobId := by
      obtain ⟨r₁, hr₁, hs₁⟩ := (step_forward hreach.interleaved hstep).2 r hr
      rw [hcoh'.run_eq hr' hr₁ (by rw [← hsr.runId, ← hrun, hs₁.runId]), hs₁.jobId, hjob]
    obtain ⟨hold, hrunning⟩ := cancel_flips hreach hstep hactive ⟨j, hj, rfl, hs⟩ r' hr' hr'j hex'
    rw [hcoh.run_eq hr hold (hrun.trans hsr.runId)] at hnot
    exact absurd hrunning hnot

/-- A job and one chained to it; the run of the first is claimed before the cancel. -/
def beforeCancel : List Act :=
  [.at 0 (.create 0 (.echo none none none)),
    .at second (.create second (.echo none (some 1) (some "SUCCEEDED"))),
    .at second (.publish second 10),
    .at (2 * second) (.claim (2 * second) 1 1)]

/-- The cancelled run is executed to its end, and its end is consumed. -/
def afterCancel : List Act :=
  [.at (4 * second) (.finish (4 * second) 1 1 .success),
    .at (5 * second) (.poll (5 * second) 10)]

/-- The run that was RUNNING succeeds, and the downstream of the cancelled job gets no run. -/
theorem afterCancel_effective : ∃ σ σ' σ'', runActs .minutely {} beforeCancel = some σ ∧
    σ.step .minutely (.at (3 * second) (.cancel (3 * second) "alice" 1)) = some σ' ∧
    runActs .minutely σ' afterCancel = some σ'' ∧
    σ''.tables.runs.map (fun r => (r.jobId, r.status)) = [(1, .succeeded)] ∧
    σ''.tables.Cancelled 1 ∧
      ∀ r'' ∈ σ''.tables.runs, σ''.tables.Stems 1 r'' →
        (∃ r ∈ σ'.tables.runs, r.SameRun r'') ∧
        ∀ r ∈ σ.tables.runs, r.runId = r''.runId → r.jobId = 1 → r.status ≠ .running →
          r''.status.terminal = true := by
  have hsome : (((runActs .minutely {} beforeCancel).bind fun σ =>
      σ.step .minutely (.at (3 * second) (.cancel (3 * second) "alice" 1))).bind fun σ =>
      runActs .minutely σ afterCancel).isSome = true := by decide +kernel
  obtain ⟨σ'', hσ''⟩ := Option.isSome_iff_exists.mp hsome
  obtain ⟨σ', hσ', hafter⟩ := Option.bind_eq_some_iff.mp hσ''
  obtain ⟨σ, hσ, hstep⟩ := Option.bind_eq_some_iff.mp hσ'
  have hactive : (runActs .minutely {} beforeCancel).map (fun σ => σ.tables.jobs.any fun j =>
      j.jobId == 1 && j.state == .active) = some true := by decide +kernel
  have hcan : ((runActs .minutely {} beforeCancel).bind fun σ =>
      σ.step .minutely (.at (3 * second) (.cancel (3 * second) "alice" 1))).map (fun σ =>
      σ.tables.jobs.any fun j => j.jobId == 1 && j.state == .cancelled) = some true := by
    decide +kernel
  have hruns : (((runActs .minutely {} beforeCancel).bind fun σ =>
      σ.step .minutely (.at (3 * second) (.cancel (3 * second) "alice" 1))).bind fun σ =>
      runActs .minutely σ afterCancel).map (fun σ =>
      σ.tables.runs.map (fun r => (r.jobId, r.status))) = some [(1, .succeeded)] := by
    decide +kernel
  rw [hσ, Option.map_some, Option.some.injEq, List.any_eq_true] at hactive
  rw [hσ', Option.map_some, Option.some.injEq, List.any_eq_true] at hcan
  rw [hσ'', Option.map_some, Option.some.injEq] at hruns
  have hreach : Reach .minutely AtomicOk σ := by
    refine Reach.init.runActs (fun τ a ha => ?_) hσ
    simp only [beforeCancel, List.mem_cons, List.not_mem_nil, or_false] at ha
    rcases ha with rfl | rfl | rfl | rfl <;> trivial
  have hsteps : Steps .minutely AtomicOk σ' σ'' := by
    refine Steps.refl.runActs (fun τ a ha => ?_) hafter
    simp only [afterCancel, List.mem_cons, List.not_mem_nil, or_false] at ha
    rcases ha with rfl | rfl <;> trivial
  exact ⟨σ, σ', σ'', hσ, hstep, hafter, hruns,
    cancel_is_effective hreach hstep (by simpa [Tables.Active] using hactive)
      (by simpa [Tables.Cancelled] using hcan) hsteps⟩

end Sys

end TaskScheduler
