import TaskScheduler.Interleave.Consumer

/-! The other transactions among others: the creation of a job, the watcher, the workers, the sweeps
and the cancel. -/

namespace TaskScheduler

open Lib

variable {τ : Terms} {libs : Libs} {k : Kind}

/-! ### Creation -/

/-- What the session of a creation has written: nothing where it has loaded the job of an earlier
call, or the job, and its first run with the events. -/
def Site.Created (args : CreateArgs) (g : Site) : Prop :=
  (g.ses.writes = [] ∧ ∃ c ∈ g.ses.loaded, c.userId = args.userId ∧
    c.idempotencyKey = args.idempotencyKey) ∨ ∃ row rest, g.ses.writes = .insertJob row :: rest ∧
    row.userId = args.userId ∧ row.idempotencyKey = args.idempotencyKey ∧
    ∀ w ∈ rest, (∃ r : JobRun, w = .insertRun r ∧ r.jobId = row.jobId) ∨ ∃ e, w = .insertEvent e

/-- The first run of a job that the session has just inserted. -/
theorem spawnInitial_keeps (hτ : τ.Stable) (hc : k.creates = true) {job : Job} {row : Job}
    {runAt : Int} {g : Site} (hk : g.Kept τ libs k) (hs : g.ses.saved = none)
    (hw : g.ses.writes = [.insertJob row]) (hid : job.jobId = row.jobId)
    (huser : job.userId = row.userId) :
    (spawnRun job runAt .pending none).wp (amongOthers τ libs k) (fun _ _ => True)
      (fun _ g' => g.Reaches τ libs k g' ∧ ∃ rest, g'.ses.writes = .insertJob row :: rest ∧
        ∀ w ∈ rest, (∃ r : JobRun, w = .insertRun r ∧ r.jobId = row.jobId) ∨
          ∃ e, w = .insertEvent e) g := by
  unfold spawnRun acquireJobLock hasExecutingRun
  rw [Program.wp_bind]
  refine among_advisoryLock hτ hk fun g₁ he₁ hk₁ => ?_
  simp only [Program.wp_bind]
  refine among_selectRuns hτ hk₁ fun g₂ he₂ hk₂ => ?_
  have hl₂ : g.Later τ g₂ := (he₁.later.trans (.lock g₁ _)).trans he₂.later
  have hs₂ : g₂.ses.saved = none := by
    rw [he₂.ses]
    exact (congrArg Session.saved he₁.ses).trans hs
  have hw₂ : ∀ g₃, g₂.Env τ g₃ → g₃.ses.writes = [.insertJob row] := by
    intro g₃ he₃
    rw [he₃.ses, he₂.ses]
    exact (congrArg Session.writes he₁.ses).trans hw
  simp only [Program.pure_eq, Program.wp_ret]
  split
  · refine ⟨⟨hl₂, hk₂, hs₂⟩, [], ?_, by simp⟩
    rw [he₂.ses]
    exact (congrArg Session.writes he₁.ses).trans hw
  · next hidle =>
    rw [Program.wp_bind]
    refine among_insertRun hτ hk₂ (fun g₃ he₃ hk₃ _ => ?_) fun g₃ he₃ hk₃ hclash => ⟨?_, fun hk₄ => ?_⟩
    · exact ⟨⟨(hl₂.trans he₃.later).trans (.nextRun g₃), hk₃,
        (congrArg Session.saved he₃.ses).trans hs₂⟩, [], hw₂ g₃ he₃, by simp⟩
    · have hw₃ := hw₂ g₃ he₃
      have hruns : g₃.view.runs = g₃.committed.runs := by
        simp [Site.view, Session.view, hw₃, Write.apply]
      refine ⟨rfl, ⟨row, ?_, hid.symm, huser.symm⟩, ?_, fun hcalm => ?_, fun x hx hj => ?_, ?_⟩
      · simp [Site.view, Session.view, hw₃, Write.apply]
      · rw [he₃.ses, he₂.ses]
        exact List.mem_cons_self
      · have hlock : job.jobId ∈ g₂.ses.held.advisory := by
          rw [he₂.ses]
          exact List.mem_cons_self
        refine (hk₂.env hτ he₃).2.idle hcalm hlock ?_
        rintro ⟨r, hr, hj, hex⟩
        refine hidle ?_
        simp only [Bool.not_eq_true', List.isEmpty_eq_false_iff_exists_mem, List.mem_filter,
          Bool.and_eq_true, beq_iff_eq]
        exact ⟨r, hr, hj, hex⟩
      · exact JobRun.index_of_not_clash (by simpa using List.any_eq_false.mp hclash x hx) hj
      · -- no committed run is of a job that is not committed
        refine .initial hc rfl fun x hx hxj => ?_
        rw [hruns] at hx
        obtain ⟨j, hj, hjx⟩ := he₃.coherent.run_job x hx
        refine he₃.fresh row ?_ j hj (hjx.trans (hxj.trans hid))
        rw [hw₃]
        exact List.mem_singleton_self _
    · rw [Program.wp_bind]
      refine among_insertEvent hτ hk₄ fun g₅ he₅ hk₅ => ⟨⟨?_, fun h => by cases h⟩, fun hk₆ => ?_⟩
      · have hrun : ∃ r ∈ (g₃.write (.insertRun (storedRun g₃.seq g₃.ses.start
            (.new job runAt .pending none)))).nextRun.view.runs,
            (storedRun g₃.seq g₃.ses.start (.new job runAt .pending none)).SameRun r := by
          refine ⟨storedRun g₃.seq g₃.ses.start (.new job runAt .pending none), ?_, .refl _⟩
          simp [Site.view, Session.view, Site.write, Site.nextRun, Site.on, Session.write,
            Write.apply]
        obtain ⟨r, hr, hsr⟩ := (persists_run _).later hτ he₅.later hk₄ hk₅ hrun
        exact ⟨r, hr, hsr.runId, hsr.jobId⟩
      · refine ⟨⟨((hl₂.trans he₃.later).trans ((Site.Later.write g₃ _).trans (.nextRun _))).trans
          (he₅.later.trans ((Site.Later.write g₅ _).trans (.nextEvent _))), hk₆, ?_⟩,
          [.insertRun (storedRun g₃.seq g₃.ses.start (.new job runAt .pending none)),
            .insertEvent (storedEvent g₅.seq g₅.ses.start
              (.new g₃.seq.runs job.jobId .created none (some .pending) none))], ?_, ?_⟩
        · exact (congrArg Session.saved he₅.ses).trans ((congrArg Session.saved he₃.ses).trans hs₂)
        · change g₅.ses.writes ++ _ = _
          rw [he₅.ses]
          change g₃.ses.writes ++ _ ++ _ = _
          rw [hw₂ g₃ he₃]
          rfl
        · intro w hw
          rcases List.mem_pair.mp hw with rfl | rfl
          · exact .inl ⟨_, rfl, hid⟩
          · exact .inr ⟨_, rfl⟩

theorem insertNewJob_keeps (hτ : τ.Stable) (hc : k.creates = true) {now : Int} {args : CreateArgs}
    {plan : CreatePlan} (hplan : planCreate libs now args = .ok plan) {g : Site}
    (hk : g.Kept τ libs k) (hs : g.ses.saved = none) (hw : g.ses.writes = [])
    (hparent : ∀ p, args.triggerOnJobId = some p →
      (∃ i ∈ g.view.jobs, i.jobId = p ∧ i.userId = args.userId) ∧
        ∃ n < maxChainDepth, Chained g.view.jobs n p) :
    (insertNewJob args plan).wp (amongOthers τ libs k) (fun _ _ => True)
      (fun _ g' => g.Reaches τ libs k g' ∧ g'.Created args) g := by
  unfold insertNewJob
  rw [Program.wp_bind]
  refine among_insertJob hτ hk (fun _ _ _ => trivial) fun g₁ he₁ hk₁ => ⟨?_, fun hk₂ => ?_⟩
  · have hlife := Job.new_lifecycle hplan
    refine ⟨hc, rfl, ⟨hlife.recurring, hlife.chained, hlife.schedule, hlife.cancelled⟩,
      fun p hp => ?_⟩
    obtain ⟨hexists, n, hn, hchain⟩ := hparent p hp
    obtain ⟨i, hi, hip, hiu⟩ := (persists_job p _).later hτ he₁.later hk hk₁ hexists
    have hchain₁ := (persists_chain n p).later hτ he₁.later hk hk₁ hchain
    refine ⟨?_, ⟨i, hi, hip, hiu⟩, n, hn, hchain₁⟩
    have hview : g₁.view = g₁.committed := by
      simp [Site.view, Session.view, he₁.ses, hw]
    rw [hview] at hi
    exact hip ▸ he₁.coherent.jobs.below i hi
  · have hl₂ := he₁.later.trans ((Site.Later.write (τ := τ) g₁ _).trans (.nextJob (g₁.write
      (.insertJob (storedJob g₁.seq g₁.ses.start (.new args plan))))))
    have hs₂ : g₁.ses.saved = none := (congrArg Session.saved he₁.ses).trans hs
    have hw₂ : (g₁.write (.insertJob (storedJob g₁.seq g₁.ses.start
        (.new args plan)))).nextJob.ses.writes =
        [.insertJob (storedJob g₁.seq g₁.ses.start (.new args plan))] := by
      simp [Site.write, Site.nextJob, Site.on, Session.write, he₁.ses, hw]
    dsimp only
    split
    · rw [Program.wp_bind]
      unfold materializeInitial
      refine Program.wp_mono (spawnInitial_keeps hτ hc hk₂ hs₂ hw₂ rfl rfl) ?_
      rintro res g₃ ⟨hr, rest, hw₃, hrest⟩
      split
      · trivial
      · trivial
      · exact ⟨⟨hl₂.trans hr.later, hr.kept, hr.saved⟩, .inr ⟨_, rest, hw₃, rfl, rfl, hrest⟩⟩
    · exact ⟨⟨hl₂, hk₂, hs₂⟩, .inr ⟨_, [], hw₂, rfl, rfl, by simp⟩⟩

/-- `create_job`, from its first statement on. -/
theorem createJob_keeps (hτ : τ.Stable) (hc : k.creates = true) (now : Int) (args : CreateArgs)
    {g : Site} (hk : g.Kept τ libs k) (hs : g.ses.saved = none) (hw : g.ses.writes = []) :
    (createJob libs now args).wp (amongOthers τ libs k) (fun _ _ => True)
      (fun _ g' => g.Reaches τ libs k g' ∧ g'.Created args) g := by
  unfold createJob
  split
  · trivial
  · next plan hplan =>
    have hinsert : ∀ g₁, g.Reaches τ libs k g₁ → g₁.ses.writes = [] →
        (createNew args plan).wp (amongOthers τ libs k) (fun _ _ => True)
          (fun _ g' => g.Reaches τ libs k g' ∧ g'.Created args) g₁ := by
      intro g₁ hr₁ hw₁
      unfold createNew
      cases htrigger : args.triggerOnJobId with
      | none =>
        refine Program.wp_mono (insertNewJob_keeps hτ hc hplan hr₁.kept hr₁.saved hw₁ ?_)
          fun _ g₂ hr₂ => ⟨hr₁.trans hr₂.1, hr₂.2⟩
        simp [htrigger]
      | some trigger =>
        unfold validateChain
        simp only [Program.wp_bind]
        refine among_loadJobs hτ hr₁.kept hr₁.saved (.inr hw₁) fun g₂ cs he₂ hk₂ hcs => ?_
        have hr₂ : g.Reaches τ libs k (g₂.load _) := hr₁.trans ⟨he₂.later.trans (.load g₂ _), hk₂,
          (congrArg Session.saved he₂.ses).trans hr₁.saved⟩
        have hw₂ : g₂.ses.writes = [] := (congrArg Session.writes he₂.ses).trans hw₁
        cases cs with
        | nil => trivial
        | cons c cs =>
          obtain ⟨r, rs, ⟨-, hcr⟩, -, hrows⟩ := List.forall₂_cons_left_iff.mp hcs
          have hmem : r ∈ g₂.view.jobs.filter fun j => j.jobId == trigger := by
            rw [hrows]
            exact List.mem_cons_self
          simp only [List.head?_cons]
          split
          · trivial
          · next huser =>
            have hex : ∃ i ∈ (g₂.load fun j => j.jobId == trigger).view.jobs,
                i.jobId = trigger ∧ i.userId = args.userId := by
              have := (List.mem_filter.mp hmem)
              simp only [beq_iff_eq] at this
              exact ⟨r, this.1, this.2, hcr.userId.trans (by simpa using huser)⟩
            split
            · trivial
            · rw [Program.wp_bind]
              refine among_ancestors hτ hk₂ fun g₃ he₃ hk₃ => ?_
              split
              · trivial
              · next hcycle =>
                split
                · trivial
                · next hdepth =>
                  have hr₃ : g.Reaches τ libs k g₃ := hr₂.trans ⟨he₃.later, hk₃,
                    (congrArg Session.saved he₃.ses).trans hr₂.saved⟩
                  change (insertNewJob args plan).wp _ _ _ g₃
                  refine Program.wp_mono (insertNewJob_keeps hτ hc hplan hk₃ hr₃.saved
                    ((congrArg Session.writes he₃.ses).trans hw₂) fun p hp => ?_)
                    fun _ g₄ hr₄ => ⟨hr₃.trans hr₄.1, hr₄.2⟩
                  rw [htrigger, Option.some.injEq] at hp
                  subst hp
                  have hex₃ := (persists_job trigger _).later hτ he₃.later hk₂ hk₃ hex
                  refine ⟨hex₃, ?_⟩
                  obtain ⟨i, hi, hid, -⟩ := hex₃
                  have hsome : (g₃.view.jobs.find? fun j => j.jobId == trigger).isSome = true :=
                    List.find?_isSome.mpr ⟨i, hi, by simpa using hid⟩
                  obtain ⟨j, hj⟩ := Option.isSome_iff_exists.mp hsome
                  obtain ⟨n, hn, hrooted⟩ := (ancestorsOf_passes hj).mp
                    ⟨by simpa using hcycle, by simpa using hdepth⟩
                  have hjid : j.jobId = trigger := by simpa using List.find?_some hj
                  have hlinked : Linked g₃.view := hk₃.now.linked he₃.coherent.linked
                  exact ⟨n, hn, hjid ▸ Chained.of_rooted (fun j hj p hp =>
                    (hlinked.trigger j hj p hp).2) (List.mem_of_find?_eq_some hj) hrooted⟩
    rw [Program.wp_bind]
    unfold existingJob
    cases hkey : args.idempotencyKey with
    | none => exact hinsert g ⟨.refl g, hk, hs⟩ hw
    | some key =>
      simp only [Program.wp_bind]
      refine among_loadJobs hτ hk hs (.inr hw) fun g₁ cs he₁ hk₁ hcs => ?_
      have hr₁ : g.Reaches τ libs k (g₁.load _) := ⟨he₁.later.trans (.load g₁ _), hk₁,
        (congrArg Session.saved he₁.ses).trans hs⟩
      simp only [Program.pure_eq, Program.wp_ret]
      cases cs with
      | nil => exact hinsert _ hr₁ ((congrArg Session.writes he₁.ses).trans hw)
      | cons c cs =>
        obtain ⟨r, rs, ⟨hc, hs⟩, -, hrows⟩ := List.forall₂_cons_left_iff.mp hcs
        have hr : r ∈ g₁.view.jobs.filter fun j =>
            j.idempotencyKey == some key && j.userId == args.userId := by
          rw [hrows]
          exact List.mem_cons_self
        have hdef := (List.mem_filter.mp hr).2
        simp only [Bool.and_eq_true, beq_iff_eq] at hdef
        refine ⟨hr₁, .inl ⟨(congrArg Session.writes he₁.ses).trans hw, c, hc, ?_, ?_⟩⟩
        · rw [since_aging.sameDef hs]
          exact hdef.2
        · rw [since_aging.sameDef hs]
          exact hdef.1.trans hkey.symm

/-! ### Writes to runs -/

/-- The events of several runs. -/
theorem insertEvents_keeps (hτ : τ.Stable) (type : EventType) (statusFrom statusTo : RunStatus)
    (data : JobRun → Option EventData) (rows : List JobRun) {g : Site} (hk : g.Kept τ libs k)
    (hs : g.ses.saved = none) (hrows : ∀ r ∈ rows, ∃ x ∈ g.view.runs, r.SameRun x)
    (htype : type.terminal = true → ¬τ.final ∧ ∀ r ∈ rows, r.runId ∈ g.ses.held.runs) :
    (rows.forM fun r => Txn.insertEvent
      (.new r.runId r.jobId type (some statusFrom) (some statusTo) (data r))).wp
      (amongOthers τ libs k) (fun _ _ => True) (fun _ g' => g.Reaches τ libs k g') g := by
  refine Program.wp_forM (fun rest g' => (∀ r ∈ rest, r ∈ rows) ∧ g.Reaches τ libs k g')
    (fun r rest g' hI => ?_) (fun g' hI => hI.2) rows g ⟨fun _ h => h, .refl g, hk, hs⟩
  obtain ⟨hsub, hr⟩ := hI
  have hmem := hsub r List.mem_cons_self
  obtain ⟨x, hx, hsx⟩ := (persists_run r).later hτ hr.later hk hr.kept (hrows r hmem)
  refine Program.wp_mono (insertEvent_keeps hτ hr.kept hr.saved ⟨x, hx, hsx.runId, hsx.jobId⟩
    fun h => ⟨hr.later.held.runs _ ((htype h).2 r hmem), (htype h).1⟩) fun _ g'' h'' => ?_
  exact ⟨fun x hx => hsub x (List.mem_cons_of_mem _ hx), hr.trans h''⟩

/-- The settle of a one-shot job. -/
theorem settleJob_keeps (hτ : τ.Stable) (hc : k.creates = false) (now : Int) (jobId : Nat)
    {g : Site} (hk : g.Kept τ libs k) (hs : g.ses.saved = none) :
    (settleJob now jobId).wp (amongOthers τ libs k) (fun _ _ => True)
      (fun _ g' => g.Reaches τ libs k g' ∧ ∀ r, g.Holds r → g'.Holds r) g := by
  unfold settleJob
  rw [Program.wp_bind]
  refine Program.wp_mono (keeps_settle hτ hc now hk hs fun g₁ he hk₁ j hj hp => ?_)
    fun _ g₁ h => h
  simp only [Bool.and_eq_true, beq_iff_eq, bne_iff_ne, ne_eq] at hp
  refine ⟨hp.1.1.2, ?_⟩
  have hlife := (hk₁.now.linked he.coherent.linked).lifecycle j hj
  simpa using fun h => hp.1.2 (hlife.recurring.mpr h)

/-! ### The watcher and the sweeps -/

theorem claimAndPublish_keeps (hτ : τ.Stable) (hf : ¬τ.final) (now : Int) (batchSize : Nat)
    {g : Site} (hk : g.Kept τ libs k) (hs : g.ses.saved = none) (hw : g.ses.writes = []) :
    (claimAndPublish now batchSize).wp (amongOthers τ libs k) (fun _ _ => True)
      (fun _ g' => g.Reaches τ libs k g') g := by
  unfold claimAndPublish
  rw [Program.wp_bind]
  refine among_lockRuns hτ hk fun g₁ rows he₁ hk₁ hsub => ?_
  have hr₁ : g.Reaches τ libs k (g₁.lockRows rows) :=
    ⟨he₁.later.trans (.lockRows g₁ rows), hk₁, (congrArg Session.saved he₁.ses).trans hs⟩
  have hholds := Site.Kept.holds ((congrArg Session.writes he₁.ses).trans hw) he₁.coherent hsub
  split
  · exact hr₁
  simp only [Program.wp_bind]
  refine among_updateRuns hτ hk₁ (fun r => ⟨rfl, rfl, rfl, rfl, rfl⟩)
    fun g₂ ids he₂ hk₂ _ hids => ⟨fun r hr hid => ⟨fun _ => .inl ?_, fun h => absurd h hf⟩,
      fun hk₃ => ?_⟩
  · -- the rows that the update names are those that were locked, and they are pending
    obtain ⟨x, hx, hxr⟩ := List.mem_map.mp (hids ▸ hid)
    have hxin := (List.mem_filter.mp hx).2
    simp only [decide_eq_true_eq] at hxin
    obtain ⟨row, hrow, hrowx⟩ := List.mem_map.mp hxin
    obtain ⟨hh, hp⟩ := hholds row hrow
    rw [(hh.env hτ hk₁ he₂).only r hr (by rw [← hxr, ← hrowx])]
    simp only [Bool.and_eq_true, beq_iff_eq] at hp
    rw [hp.1]
    rfl
  · have hr₃ : g.Reaches τ libs k (g₂.updateRuns ids _) := hr₁.trans
      ⟨he₂.later.trans (.updateRuns g₂ ids _), hk₃, (congrArg Session.saved he₂.ses).trans hr₁.saved⟩
    rw [Program.wp_bind]
    refine Program.wp_mono (insertEvents_keeps hτ .queued .pending .queued (fun _ => none) rows
      hr₃.kept hr₃.saved (fun r hr => ?_) (by simp [EventType.terminal]))
      fun _ g₄ hr₄ => hr₃.trans hr₄
    exact (persists_run r).later hτ (he₂.later.trans (.updateRuns g₂ ids _)) hk₁ hk₃
      ⟨r, (hholds r hr).1.mem, .refl r⟩

theorem sweepDlqRetrying_keeps (hτ : τ.Stable) (hf : ¬τ.final) (now grace : Int) (batchSize : Nat)
    {g : Site} (hk : g.Kept τ libs k) (hs : g.ses.saved = none) (hw : g.ses.writes = []) :
    (sweepDlqRetrying now grace batchSize).wp (amongOthers τ libs k) (fun _ _ => True)
      (fun _ g' => g.Reaches τ libs k g') g := by
  unfold sweepDlqRetrying
  rw [Program.wp_bind]
  refine among_lockRuns hτ hk fun g₁ rows he₁ hk₁ hsub => ?_
  have hr₁ : g.Reaches τ libs k (g₁.lockRows rows) :=
    ⟨he₁.later.trans (.lockRows g₁ rows), hk₁, (congrArg Session.saved he₁.ses).trans hs⟩
  have hholds := Site.Kept.holds ((congrArg Session.writes he₁.ses).trans hw) he₁.coherent hsub
  split
  · exact hr₁
  simp only [Program.wp_bind]
  refine among_updateRuns hτ hk₁ (fun r => ⟨rfl, rfl, rfl, rfl, rfl⟩)
    fun g₂ ids he₂ hk₂ _ hids => ⟨fun r hr hid => ⟨fun h => (by cases h), fun h => absurd h hf⟩,
      fun hk₃ => ?_⟩
  have hr₃ : g.Reaches τ libs k (g₂.updateRuns ids _) := hr₁.trans
    ⟨he₂.later.trans (.updateRuns g₂ ids _), hk₃, (congrArg Session.saved he₂.ses).trans hr₁.saved⟩
  rw [Program.wp_bind]
  refine Program.wp_mono (insertEvents_keeps hτ .failed .retrying .failed
    (fun r => some (.dlqReconcile r.updatedAt)) rows hr₃.kept hr₃.saved (fun r hr => ?_)
    fun _ => ⟨hf, fun r hr => ?_⟩) fun _ g₄ hr₄ => hr₃.trans hr₄
  · exact (persists_run r).later hτ (he₂.later.trans (.updateRuns g₂ ids _)) hk₁ hk₃
      ⟨r, (hholds r hr).1.mem, .refl r⟩
  · exact List.mem_append_right _ (he₂.ses ▸ (hholds r hr).1.locked)

/-- An update that leaves the status alone. -/
theorem touch_keeps (hτ : τ.Stable) (hf : ¬τ.final) (p : JobRun → Bool) (set : JobRun → JobRun)
    (hset : ∀ r : JobRun, r.SameRun (set r)) (hstatus : ∀ r : JobRun, (set r).status = r.status) :
    Keeps τ libs k (Txn.updateRuns p set) := by
  intro g hk hs
  refine among_updateRuns hτ hk hset fun g₁ ids he₁ hk₁ _ hids => ⟨fun r hr hid =>
    ⟨fun h => .inl (hstatus r ▸ h), fun h => absurd h hf⟩, fun hk₂ => ?_⟩
  exact ⟨he₁.later.trans (.updateRuns g₁ ids _), hk₂, (congrArg Session.saved he₁.ses).trans hs⟩

theorem bumpHeartbeatAt_keeps (hτ : τ.Stable) (hf : ¬τ.final) (now : Int) (runId : Nat) :
    Keeps τ libs k (bumpHeartbeatAt now runId) :=
  (touch_keeps hτ hf _ (fun r => { r with heartbeatAt := some now }) (fun _ => ⟨rfl, rfl, rfl, rfl, rfl⟩)
    fun _ => rfl).bind fun _ => .ret _

theorem sweepQueuedStuck_keeps (hτ : τ.Stable) (hf : ¬τ.final) (now now' grace : Int)
    (batchSize : Nat) (sent : Nat → Bool) {g : Site} (hk : g.Kept τ libs k)
    (hs : g.ses.saved = none) :
    (sweepQueuedStuck now now' grace batchSize sent).wp (amongOthers τ libs k) (fun _ _ => True)
      (fun _ g' => g.Reaches τ libs k g') g := by
  unfold sweepQueuedStuck
  rw [Program.wp_bind]
  refine among_lockRuns hτ hk fun g₁ rows he₁ hk₁ hsub => ?_
  have hr₁ : g.Reaches τ libs k (g₁.lockRows rows) :=
    ⟨he₁.later.trans (.lockRows g₁ rows), hk₁, (congrArg Session.saved he₁.ses).trans hs⟩
  rw [Program.wp_bind]
  refine Program.wp_forM (fun rest g' => (∀ r ∈ rest, r ∈ rows) ∧
    (g₁.lockRows rows).Reaches τ libs k g') (fun r rest g' hI => ?_)
    (fun g' hI => hr₁.trans hI.2) rows _ ⟨fun _ h => h, .refl _, hk₁, hr₁.saved⟩
  obtain ⟨hsubset, hr⟩ := hI
  have hrest : ∀ x ∈ rest, x ∈ rows := fun x hx => hsubset x (List.mem_cons_of_mem _ hx)
  unfold requeueRun
  split
  · rw [Program.wp_bind]
    refine Program.wp_mono (touch_keeps hτ hf _ (fun r' => { r' with updatedAt := now' })
      (fun _ => ⟨rfl, rfl, rfl, rfl, rfl⟩) (fun _ => rfl) g' hr.kept hr.saved) fun _ g₂ hr₂ => ?_
    have hmem := (List.mem_filter.mp (hsub.subset (hsubset r List.mem_cons_self))).1
    obtain ⟨x, hx, hsx⟩ := (persists_run r).later hτ (hr.later.trans hr₂.later) hk₁ hr₂.kept
      ⟨r, hmem, .refl r⟩
    refine Program.wp_mono (insertEvent_keeps hτ hr₂.kept hr₂.saved ⟨x, hx, hsx.runId, hsx.jobId⟩
      fun h => by cases h) fun _ g₃ hr₃ => ⟨hrest, (hr.trans hr₂).trans hr₃⟩
  · exact ⟨hrest, hr⟩

/-! ### One run after the other -/

/-- The view after a run is updated. -/
theorem Site.view_updateRuns (g : Site) (ids : List Nat) (set : JobRun → JobRun) :
    (g.updateRuns ids set).view.runs =
      g.view.runs.map fun r => if r.runId ∈ ids then set r else r := by
  simp [Site.view, Session.view, Site.updateRuns, Site.on, Session.write, Write.apply]

theorem Site.view_updateRuns_events (g : Site) (ids : List Nat) (set : JobRun → JobRun) :
    (g.updateRuns ids set).view.events = g.view.events := by
  simp [Site.view, Session.view, Site.updateRuns, Site.on, Session.write, Write.apply]

/-- The update of one run, and its event. -/
theorem writeRun_keeps (hτ : τ.Stable) (set : JobRun → JobRun)
    (hset : ∀ r : JobRun, r.SameRun (set r)) {runId jobId : Nat} {type : EventType}
    {statusFrom statusTo : RunStatus} {data : Option EventData} {α : Type} {rest : Txn α}
    {Q : α → Site → Prop} {g : Site} (hk : g.Kept τ libs k) (hs : g.ses.saved = none)
    (hrun : ∃ r ∈ g.view.runs, r.runId = runId ∧ r.jobId = jobId)
    (hexec : ∀ g₁, g.Env τ g₁ → g₁.Kept τ libs k → ∀ r ∈ g₁.view.runs, r.runId = runId →
      (set r).status.executing = true → r.status.executing = true ∨ k.writesBlindly runId)
    (hfinal : τ.final → ∀ g₁, g.Env τ g₁ → g₁.Kept τ libs k →
      τ.cond (.updateRuns (fun r => r.runId == runId) set) g₁ →
      (∀ r ∈ g₁.view.runs, r.runId = runId →
        r.status.cancellable = true ∧ (set r).status.terminal = true) ∧
      ∀ e ∈ g₁.view.events, e.eventType.terminal = true → e.runId ≠ runId)
    (hQ : ∀ g', g.Reaches τ libs k g' → (∀ x, x.runId ≠ runId → g.Holds x → g'.Holds x) →
      rest.wp (amongOthers τ libs k) (fun _ _ => True) Q g') :
    (do
      let _ ← Txn.updateRuns (fun r => r.runId == runId) set
      Txn.insertEvent (.new runId jobId type (some statusFrom) (some statusTo) data)
      rest : Txn α).wp (amongOthers τ libs k) (fun _ _ => True) Q g := by
  rw [Program.wp_bind]
  refine among_updateRuns hτ hk hset fun g₁ ids he₁ hk₁ hcond hids => ?_
  have hin : ∀ id, id ∈ ids → id = runId := by
    intro id hid
    obtain ⟨r, hr, rfl⟩ := List.mem_map.mp (hids ▸ hid)
    simpa using (List.mem_filter.mp hr).2
  refine ⟨fun r hr hid => ⟨fun h => ?_, fun hf => ?_⟩, fun hk₂ => ?_⟩
  · rw [hin _ hid]
    exact hexec g₁ he₁ hk₁ r hr (hin _ hid) h
  · exact ((hfinal hf g₁ he₁ hk₁ hcond).1 r hr (hin _ hid)).1
  have hr₂ : g.Reaches τ libs k (g₁.updateRuns ids set) :=
    ⟨he₁.later.trans (.updateRuns g₁ ids set), hk₂, (congrArg Session.saved he₁.ses).trans hs⟩
  -- the run is there, so the update has locked it
  obtain ⟨r, hr, hrid, hrj⟩ := hrun
  have hlocked : runId ∈ (g₁.updateRuns ids set).ses.held.runs := by
    obtain ⟨r₁, hr₁, hs₁⟩ := (persists_run r).later hτ he₁.later hk hk₁ ⟨r, hr, .refl r⟩
    refine List.mem_append_left _ ?_
    rw [hids]
    exact List.mem_map.mpr ⟨r₁, List.mem_filter.mpr ⟨hr₁, by simp [hs₁.runId, hrid]⟩,
      hs₁.runId.trans hrid⟩
  rw [Program.wp_bind]
  refine among_insertEvent hτ hk₂ fun g₃ he₃ hk₃ => ⟨⟨?_, fun ht => ⟨he₃.ses ▸ hlocked, fun hf => ?_⟩⟩,
    fun hk₄ => ?_⟩
  · obtain ⟨r₃, hr₃, hs₃⟩ := (persists_run r).later hτ (hr₂.later.trans he₃.later) hk hk₃
      ⟨r, hr, .refl r⟩
    exact ⟨r₃, hr₃, hs₃.runId.trans hrid, hs₃.jobId.trans hrj⟩
  · obtain ⟨hrows, hevents⟩ := hfinal hf g₁ he₁ hk₁ hcond
    have hview := (hk₂.env hτ he₃).2
    refine ⟨fun x hx hxid => ?_, fun e he hterm heq => ?_⟩
    · have hx₂ := hview.held_runs x hx (hxid ▸ hlocked)
      rw [Site.view_updateRuns] at hx₂
      obtain ⟨y, hy, rfl⟩ := List.mem_map.mp hx₂
      split at hxid
      · next hyin =>
        rw [if_pos hyin]
        exact (hrows y hy (hin _ hyin)).2
      · next hyin =>
        refine absurd ?_ hyin
        rw [hids]
        have hyid : y.runId = runId := hxid
        exact List.mem_map.mpr ⟨y, List.mem_filter.mpr ⟨hy, by simp [hyid]⟩, rfl⟩
    · obtain ⟨e', he', hse⟩ := hview.held_events e he hterm (heq ▸ hlocked)
      rw [Site.view_updateRuns_events] at he'
      exact hevents e' he' (hse.eventType ▸ hterm) (hse.runId.symm.trans heq)
  · refine hQ _ (hr₂.trans ⟨he₃.later.trans ((Site.Later.write g₃ _).trans (.nextEvent _)), hk₄,
      (congrArg Session.saved he₃.ses).trans hr₂.saved⟩) fun x hne hx => ?_
    have hx₂ := (hx.env hτ hk he₁).updateRuns (fun h => hne (hin _ h)) hset
    refine (hx₂.env hτ hk₂ he₃).of_view (fun _ h => h) ?_
    simp [Site.view, Session.view, Site.write, Site.nextEvent, Site.on, Session.write, Write.apply]

/-! ### Workers -/

/-- The session has claimed the run. -/
def Site.Won (g : Site) (runId jobId : Nat) : Prop :=
  ∃ r, g.Holds r ∧ r.runId = runId ∧ r.jobId = jobId ∧ r.status = .running

theorem Site.Won.env {g g₁ : Site} {runId jobId : Nat} (h : g.Won runId jobId) (hτ : τ.Stable)
    (hk : g.Kept τ libs k) (he : g.Env τ g₁) : g₁.Won runId jobId := by
  obtain ⟨r, hr, hrest⟩ := h
  exact ⟨r, hr.env hτ hk he, hrest⟩

theorem claimTxn_keeps (hτ : τ.Stable) (hf : ¬τ.final) (hc : k.creates = false) (now : Int)
    {runId jobId : Nat} {g : Site} (hk : g.Kept τ libs k) (hs : g.ses.saved = none)
    (hw : g.ses.writes = []) (hrun : ∃ r ∈ g.view.runs, r.runId = runId ∧ r.jobId = jobId) :
    (claimTxn now runId jobId).wp (amongOthers τ libs k) (fun _ _ => True)
      (fun won g' => g.Reaches τ libs k g' ∧ (won = true → g'.Won runId jobId)) g := by
  unfold claimTxn claim
  simp only [Program.wp_bind]
  refine among_selectRuns hτ hk fun g₁ he₁ hk₁ => ?_
  simp only [Program.wp_bind]
  refine among_updateRuns hτ hk₁ (fun r => ⟨rfl, rfl, rfl, rfl, rfl⟩) fun g₂ ids he₂ hk₂ _ hids => ?_
  have hview : g₂.view = g₂.committed := by
    simp [Site.view, Session.view, he₂.ses, he₁.ses, hw]
  have hnodup := he₂.coherent.runs
  rw [← hview] at hnodup
  have hclaimable : ∀ r ∈ g₂.view.runs, r.runId ∈ ids → r.runId = runId ∧
      r.status.claimable = true := by
    intro r hr hid
    obtain ⟨x, hx, hxr⟩ := List.mem_map.mp (hids ▸ hid)
    have hx' := List.mem_filter.mp hx
    rw [List.inj_on_of_nodup_map hnodup hx'.1 hr hxr] at hx'
    simpa using hx'.2
  refine ⟨fun r hr hid => ⟨fun _ => .inl ?_, fun h => absurd h hf⟩, fun hk₃ => ?_⟩
  · have hcan := (hclaimable r hr hid).2
    rw [RunStatus.claimable_eq_cancellable] at hcan
    exact RunStatus.executing_of_cancellable hcan
  have hr₃ : g.Reaches τ libs k (g₂.updateRuns ids (JobRun.start now)) := by
    refine ⟨(he₁.later.trans he₂.later).trans (.updateRuns g₂ ids _), hk₃, ?_⟩
    exact (congrArg Session.saved he₂.ses).trans ((congrArg Session.saved he₁.ses).trans hs)
  obtain ⟨r, hr, hrid, hrj⟩ := hrun
  by_cases hempty : ids.isEmpty = true
  · rw [if_pos hempty]
    exact ⟨hr₃, fun h => by cases h⟩
  rw [if_neg hempty]
  -- the row that the update matched is the row of the message
  obtain ⟨r₂, hr₂, hs₂⟩ := (persists_run r).later hτ (he₁.later.trans he₂.later) hk hk₂
    ⟨r, hr, .refl r⟩
  have hin : runId ∈ ids := by
    obtain ⟨id, hid⟩ := List.exists_mem_of_ne_nil ids (by simpa using hempty)
    obtain ⟨x, hx, hxid⟩ := List.mem_map.mp (hids ▸ hid)
    rw [← (hclaimable x (List.mem_filter.mp hx).1 (hxid ▸ hid)).1, hxid]
    exact hid
  have hholds : (g₂.updateRuns ids (JobRun.start now)).Holds (JobRun.start now r₂) := by
    have hid₂ : r₂.runId = runId := hs₂.runId.trans hrid
    refine ⟨List.mem_append_left _ (hid₂ ▸ hin), ?_, fun x hx hid => ?_⟩
    · rw [Site.view_updateRuns]
      exact List.mem_map.mpr ⟨r₂, hr₂, if_pos (hid₂ ▸ hin)⟩
    · rw [Site.view_updateRuns] at hx
      obtain ⟨y, hy, rfl⟩ := List.mem_map.mp hx
      have hyid : y.runId = r₂.runId := by
        split at hid <;> exact hid
      rw [List.inj_on_of_nodup_map hnodup hy hr₂ hyid, if_pos (hid₂ ▸ hin)]
  have hwon : (g₂.updateRuns ids (JobRun.start now)).Won runId jobId :=
    ⟨_, hholds, hs₂.runId.trans hrid, hs₂.jobId.trans hrj, rfl⟩
  simp only [Program.wp_bind]
  refine among_insertEvent hτ hk₃ fun g₄ he₄ hk₄ => ⟨⟨?_, fun h => by cases h⟩, fun hk₅ => ?_⟩
  · obtain ⟨r₄, hr₄, hs₄⟩ := (persists_run r).later hτ (hr₃.later.trans he₄.later) hk hk₄
      ⟨r, hr, .refl r⟩
    exact ⟨r₄, hr₄, hs₄.runId.trans hrid, hs₄.jobId.trans hrj⟩
  · obtain ⟨r₅, hr₅, hrest⟩ := hwon.env hτ hk₃ he₄
    have hwon₅ : (g₄.write (.insertEvent (storedEvent g₄.seq g₄.ses.start (.new runId jobId .started
        (some (((g₁.view.runs.filter fun r => r.runId == runId).head?.map (·.status)).getD .queued))
        (some .running) none)))).nextEvent.Won runId jobId := by
      refine ⟨r₅, hr₅.of_view (fun _ h => h) ?_, hrest⟩
      simp [Site.view, Session.view, Site.write, Site.nextEvent, Site.on, Session.write, Write.apply]
    have hr₅ := hr₃.trans ⟨he₄.later.trans ((Site.Later.write g₄ _).trans (.nextEvent _)), hk₅,
      (congrArg Session.saved he₄.ses).trans hr₃.saved⟩
    simp only [Program.pure_eq, Program.wp_ret, if_true, Program.wp_bind]
    refine among_loadJobs hτ hk₅ hr₅.saved (.inl hc) fun g₆ _ he₆ hk₆ _ => ?_
    have hr₆ : g.Reaches τ libs k (g₆.load _) := hr₅.trans ⟨he₆.later.trans (.load g₆ _), hk₆,
      (congrArg Session.saved he₆.ses).trans hr₅.saved⟩
    have hwon₆ : (g₆.load fun j => j.jobId == jobId).Won runId jobId := by
      obtain ⟨r₆, hr₆, hrest⟩ := hwon₅.env hτ hk₅ he₆
      exact ⟨r₆, hr₆.of_view (fun _ h => h) rfl, hrest⟩
    simp only [Program.wp_bind]
    refine among_selectRuns hτ hk₆ fun g₇ he₇ hk₇ => ?_
    exact ⟨hr₆.trans ⟨he₇.later, hk₇, (congrArg Session.saved he₇.ses).trans hr₆.saved⟩,
      fun _ => hwon₆.env hτ hk₆ he₇⟩

/-- The write that follows the work on a run. -/
theorem finishTxn_keeps (hτ : τ.Stable) (hf : ¬τ.final) (hc : k.creates = false) {now : Int}
    {runId jobId : Nat} (hblind : k.writesBlindly runId) (outcome : Outcome) {g : Site}
    (hk : g.Kept τ libs k) (hs : g.ses.saved = none)
    (hrun : ∃ r ∈ g.view.runs, r.runId = runId ∧ r.jobId = jobId) :
    (finishTxn now runId jobId outcome).wp (amongOthers τ libs k) (fun _ _ => True)
      (fun _ g' => g.Reaches τ libs k g') g := by
  have hsettle : ∀ g', g.Reaches τ libs k g' →
      (do
        let _ ← settleJob now jobId : Txn Unit).wp (amongOthers τ libs k) (fun _ _ => True)
        (fun _ g' => g.Reaches τ libs k g') g' := by
    intro g' hr
    rw [Program.wp_bind]
    exact Program.wp_mono (settleJob_keeps hτ hc now jobId hr.kept hr.saved) fun _ _ h =>
      hr.trans h.1
  have hwrite : ∀ (set : JobRun → JobRun) (hset : ∀ r : JobRun, r.SameRun (set r)) (type : EventType)
      (statusTo : RunStatus) (data : Option EventData) (rest : Txn Unit),
      (∀ g', g.Reaches τ libs k g' → rest.wp (amongOthers τ libs k) (fun _ _ => True)
        (fun _ g' => g.Reaches τ libs k g') g') →
      (do
        let _ ← Txn.updateRuns (fun r => r.runId == runId) set
        Txn.insertEvent (.new runId jobId type (some .running) (some statusTo) data)
        rest : Txn Unit).wp (amongOthers τ libs k) (fun _ _ => True)
        (fun _ g' => g.Reaches τ libs k g') g :=
    fun set hset type statusTo data rest hrest => writeRun_keeps hτ set hset hk hs hrun
      (fun _ _ _ _ _ _ _ => .inr hblind) (fun h => absurd h hf) fun g' hr _ => hrest g' hr
  have hterminal : ∀ status res, (writeTerminal now runId jobId status res).wp (amongOthers τ libs k)
      (fun _ _ => True) (fun _ g' => g.Reaches τ libs k g') g := fun status res =>
    hwrite (JobRun.finish now status res) (fun _ => ⟨rfl, rfl, rfl, rfl, rfl⟩) _ _ _ _ hsettle
  have hretry : ∀ message, (writeRetrying now runId jobId message).wp (amongOthers τ libs k)
      (fun _ _ => True) (fun _ g' => g.Reaches τ libs k g') g := fun message =>
    hwrite (JobRun.retry now message) (fun _ => ⟨rfl, rfl, rfl, rfl, rfl⟩) _ _ _ (.ret ()) fun _ hr => hr
  cases outcome with
  | returned res =>
    simp only [finishTxn]
    split
    · exact hterminal _ _
    · split
      · exact hterminal _ _
      · exact hretry _
  | raised message => exact hretry message
  | invalid message eventData =>
    exact hwrite (JobRun.fail now message) (fun _ => ⟨rfl, rfl, rfl, rfl, rfl⟩) _ _ _ _ hsettle

/-! ### Sweep C -/

theorem sweepRunningOrphan_keeps (hτ : τ.Stable) (hf : ¬τ.final) (hc : k.creates = false)
    (registry : String → Option ActionHandler) (now now' grace : Int) (batchSize : Nat) {g : Site}
    (hk : g.Kept τ libs k) (hs : g.ses.saved = none) (hw : g.ses.writes = []) :
    (sweepRunningOrphan registry now now' grace batchSize).wp (amongOthers τ libs k)
      (fun _ _ => True) (fun _ g' => g.Reaches τ libs k g') g := by
  unfold sweepRunningOrphan
  rw [Program.wp_bind]
  refine among_lockRuns hτ hk fun g₁ rows he₁ hk₁ hsub => ?_
  have hr₁ : g.Reaches τ libs k (g₁.lockRows rows) :=
    ⟨he₁.later.trans (.lockRows g₁ rows), hk₁, (congrArg Session.saved he₁.ses).trans hs⟩
  have hw₁ : g₁.ses.writes = [] := (congrArg Session.writes he₁.ses).trans hw
  have hholds := Site.Kept.holds hw₁ he₁.coherent hsub
  have hnodup := locked_nodup hw₁ he₁.coherent hsub
  split
  · exact hr₁
  simp only [Program.wp_bind]
  refine among_selectJobs hτ hk₁ fun g₂ he₂ hk₂ => ?_
  have hr₂ : g.Reaches τ libs k g₂ :=
    hr₁.trans ⟨he₂.later, hk₂, (congrArg Session.saved he₂.ses).trans hr₁.saved⟩
  rw [Program.wp_bind]
  -- the rows still to come are held and RUNNING
  refine Program.wp_forM (fun rest g' => (rest.map (·.runId)).Nodup ∧
    (∀ r ∈ rest, g'.Holds r ∧ r.status = .running) ∧ g.Reaches τ libs k g')
    (fun r rest g' hI => ?_) (fun g' hI => hI.2.2) rows _ ⟨hnodup, fun r hr => ?_, hr₂⟩
  · obtain ⟨hnd, hrest, hr⟩ := hI
    obtain ⟨hheld, hrunning⟩ := hrest r List.mem_cons_self
    rw [List.map_cons, List.nodup_cons] at hnd
    have hrun : ∃ x ∈ g'.view.runs, x.runId = r.runId ∧ x.jobId = r.jobId :=
      ⟨r, hheld.mem, rfl, rfl⟩
    have hnext : ∀ g'' : Site, (∀ x, x.runId ≠ r.runId → g'.Holds x → g''.Holds x) →
        ∀ x ∈ rest, g''.Holds x ∧ x.status = .running := by
      intro g'' hframe x hx
      obtain ⟨hx', hs'⟩ := hrest x (List.mem_cons_of_mem _ hx)
      exact ⟨hframe x (fun heq => hnd.1 (heq ▸ List.mem_map_of_mem hx)) hx', hs'⟩
    unfold recoverRun
    split
    · have hwrite : (do
          let _ ← Txn.updateRuns (fun r' => r'.runId == r.runId) (JobRun.queue now')
          Txn.insertEvent (.new r.runId r.jobId .reenqueued (some .running) (some .queued)
            (some (.runningOrphan r.heartbeatAt)))
          Program.ret () : Txn Unit).wp (amongOthers τ libs k) (fun _ _ => True) (fun _ g'' =>
            (rest.map (·.runId)).Nodup ∧ (∀ r ∈ rest, g''.Holds r ∧ r.status = .running) ∧
            g.Reaches τ libs k g'') g' := by
        refine writeRun_keeps hτ (JobRun.queue now') (fun _ => ⟨rfl, rfl, rfl, rfl, rfl⟩) hr.kept hr.saved
          hrun (fun g₃ he₃ _ x hx hid _ => .inl ?_) (fun h => absurd h hf) ?_
        · rw [(hheld.env hτ hr.kept he₃).only x hx hid, hrunning]
          rfl
        · exact fun g'' hr'' hframe => ⟨hnd.2, hnext g'' hframe, hr.trans hr''⟩
      exact hwrite
    · refine writeRun_keeps hτ (JobRun.fail now' runningOrphanMessage)
        (fun _ => ⟨rfl, rfl, rfl, rfl, rfl⟩) hr.kept hr.saved hrun ?_ (fun h => absurd h hf) ?_
      · intro _ _ _ x _ _ h
        cases h
      · intro g'' hr'' hframe
        rw [Program.wp_bind]
        refine Program.wp_mono (settleJob_keeps hτ hc now' r.jobId hr''.kept hr''.saved) ?_
        rintro _ g₃ ⟨hr₃, hframe₃⟩
        refine ⟨hnd.2, fun x hx => ?_, (hr.trans hr'').trans hr₃⟩
        obtain ⟨hx', hs'⟩ := hnext g'' hframe x hx
        exact ⟨hframe₃ x hx', hs'⟩
  · obtain ⟨hh, hp⟩ := hholds r hr
    simp only [Bool.and_eq_true, beq_iff_eq] at hp
    exact ⟨hh.env hτ hk₁ he₂, hp.1⟩

/-! ### Cancel -/

/-- Every terminal event is of a run that has ended. -/
def Tables.EventsEnd (t : Tables) : Prop :=
  ∀ e ∈ t.events, e.eventType.terminal = true →
    ∃ r ∈ t.runs, r.runId = e.runId ∧ r.status.terminal = true

theorem Tables.EventsEnd.apply {held : Held} {loaded : List Job} {t : Tables} (h : t.EventsEnd)
    (hf : τ.final) {w : Write} (hw : Valid τ libs k held loaded t w) : (w.apply t).EventsEnd := by
  cases w with
  | insertRun row =>
    intro e he hterm
    obtain ⟨r, hr, hrest⟩ := h e he hterm
    exact ⟨r, List.mem_append_left _ hr, hrest⟩
  | updateRuns ids set =>
    intro e he hterm
    obtain ⟨r, hr, hid, hend⟩ := h e he hterm
    refine ⟨r, List.mem_map.mpr ⟨r, hr, if_neg fun hin => ?_⟩, hid, hend⟩
    -- only a run that can be cancelled is written, and such a run has not ended
    have hexec := RunStatus.executing_of_cancellable ((hw.2.2 r hr hin).2 hf)
    rw [RunStatus.executing_eq_not_terminal, hend] at hexec
    cases hexec
  | insertEvent row =>
    intro e he hterm
    rcases List.mem_append.mp he with he | he
    · exact h e he hterm
    · rw [List.mem_singleton.mp he] at hterm ⊢
      obtain ⟨⟨r, hr, hid, -⟩, hend⟩ := hw
      exact ⟨r, hr, hid, ((hend hterm).2 hf).1 r hr hid⟩
  | updateEvents ids set =>
    obtain ⟨_, by_, -, rfl, -⟩ := hw
    intro e he hterm
    obtain ⟨x, hx, rfl⟩ := List.mem_map.mp he
    have hsame : ∀ y : RunEvent, (if x.eventId ∈ ids then { x with processedBy := by_ } else x) = y →
        y.eventType = x.eventType ∧ y.runId = x.runId := by
      rintro y rfl
      split <;> exact ⟨rfl, rfl⟩
    rw [(hsame _ rfl).1] at hterm
    rw [(hsame _ rfl).2]
    exact h x hx hterm
  | _ => exact h

/-- Where a run ends once, the cancel writes only runs that it may cancel, as it sees them. -/
def Terms.Flips (τ : Terms) : Prop :=
  τ.final → (∀ t, τ.inv t → t.EventsEnd) ∧ ∀ p set g, τ.cond (.updateRuns p set) g →
    ∀ r ∈ g.view.runs, p r = true → r.status.cancellable = true

theorem flipRun_keeps (hτ : τ.Stable) (hflips : τ.Flips) {run : JobRun} {g : Site}
    (hk : g.Kept τ libs k) (hs : g.ses.saved = none) (hrun : ∃ x ∈ g.view.runs, run.SameRun x) :
    (flipRun run.jobId run).wp (amongOthers τ libs k) (fun _ _ => True)
      (fun _ g' => g.Reaches τ libs k g') g := by
  unfold flipRun
  split
  · obtain ⟨x, hx, hsx⟩ := hrun
    have hwrite : (do
        let _ ← Txn.updateRuns (fun r => r.runId == run.runId) JobRun.flip
        Txn.insertEvent (.new run.runId run.jobId .cancelled (some run.status) (some .cancelled) none)
        Program.ret () : Txn Unit).wp (amongOthers τ libs k) (fun _ _ => True)
        (fun _ g' => g.Reaches τ libs k g') g := by
      refine writeRun_keeps hτ JobRun.flip (fun _ => ⟨rfl, rfl, rfl, rfl, rfl⟩) hk hs
        ⟨x, hx, hsx.runId, hsx.jobId⟩ ?_ (fun hf g₁ he₁ hk₁ hcond => ?_) ?_
      · intro _ _ _ r _ _ h
        cases h
      · obtain ⟨hinv, hcan⟩ := hflips hf
        refine ⟨fun r hr hid => ⟨hcan _ _ g₁ hcond r hr (by simpa using hid), rfl⟩,
          fun e he ht heq => ?_⟩
        -- the run of a terminal event has ended, and could not be cancelled
        have hends : g₁.view.EventsEnd :=
          hk₁.now.replays.invariant (fun _ _ _ h hw => h.apply hf hw) (hinv _ he₁.inv)
        obtain ⟨r, hr, hid, hend⟩ := hends e he ht
        have hexec := RunStatus.executing_of_cancellable
          (hcan _ _ g₁ hcond r hr (by simpa using hid.trans heq))
        rw [RunStatus.executing_eq_not_terminal, hend] at hexec
        cases hexec
      · exact fun g' hr _ => hr
    exact hwrite
  · exact ⟨.refl g, hk, hs⟩

theorem cancelRuns_keeps (hτ : τ.Stable) (hflips : τ.Flips) (hc : k.creates = false) (now : Int)
    (depth jobId : Nat) : Keeps τ libs k (cancelRuns now depth jobId) := by
  intro g hk hs
  unfold cancelRuns
  rw [Program.wp_bind]
  refine among_selectRuns hτ hk fun g₁ he₁ hk₁ => ?_
  have hr₁ : g.Reaches τ libs k g₁ := ⟨he₁.later, hk₁, (congrArg Session.saved he₁.ses).trans hs⟩
  have hmem : ∀ r ∈ g₁.view.runs.filter fun r => r.jobId == jobId,
      r ∈ g₁.view.runs ∧ r.jobId = jobId := by
    intro r hr
    simpa using hr
  generalize (g₁.view.runs.filter fun r => r.jobId == jobId) = runs at hmem
  rw [Program.wp_bind]
  refine Program.wp_mono (Program.wp_forM (Q := fun _ g' => g₁.Reaches τ libs k g')
    (fun rest g' => (∀ r ∈ rest, r ∈ runs) ∧ g₁.Reaches τ libs k g')
    (fun r rest g' hI => ?_) (fun g' hI => hI.2) runs g₁ ⟨fun _ h => h, .refl g₁, hk₁, hr₁.saved⟩)
    fun _ g₂ hr₂ => ?_
  · obtain ⟨hsub, hr⟩ := hI
    obtain ⟨hrm, rfl⟩ := hmem r (hsub r List.mem_cons_self)
    refine Program.wp_mono (flipRun_keeps hτ hflips hr.kept hr.saved
      ((persists_run r).later hτ hr.later hk₁ hr.kept ⟨r, hrm, .refl r⟩)) fun _ g₂ hr₂ => ?_
    exact ⟨fun x hx => hsub x (List.mem_cons_of_mem _ hx), hr.trans hr₂⟩
  · exact Program.wp_mono (settleDownstreams_keeps hτ (settleCheck_keeps hτ hc now depth) jobId g₂
      hr₂.kept hr₂.saved) fun _ g₃ hr₃ => (hr₁.trans hr₂).trans hr₃

theorem cancelJob_keeps (hτ : τ.Stable) (hflips : τ.Flips) (hc : k.creates = false) (now : Int)
    (depth : Nat) (userId : String) (jobId : Nat) :
    Keeps τ libs k (cancelJob now depth userId jobId) := by
  have hhint : Keeps τ libs k (terminalStatusHint jobId >>= fun hint =>
      (Txn.raise (.invalidState hint) : Txn CancelledView)) :=
    ((Keeps.selectRuns hτ _).bind fun _ => .ret _).bind fun _ _ _ _ => trivial
  refine (Keeps.loadJobs hτ hc _).bind fun rows => ?_
  cases rows.head? with
  | none => exact fun _ _ _ => trivial
  | some job =>
    dsimp only
    cases job.state with
    | cancelled => exact .ret _
    | completed => exact hhint
    | active =>
      refine Keeps.bind (fun g hk hs => ?_) fun cas => ?_
      · -- the compare-and-set
        refine among_updateJobs hτ hk hc ⟨now, .inr rfl⟩ fun g₁ ids he hk₁ hids =>
          ⟨fun j hj hid => ?_, fun hk₂ => ?_⟩
        · have hnd := hk₁.jobs_nodup he.coherent (.inl hc)
          have hp := matched_active hnd hj (hids ▸ hid)
          simp only [Bool.and_eq_true, beq_iff_eq] at hp
          exact ⟨hp.2, ((hk₁.now.linked he.coherent.linked).lifecycle j hj).cancel now⟩
        · exact ⟨he.later.trans (.updateJobs g₁ ids _), hk₂, (congrArg Session.saved he.ses).trans hs⟩
      · split
        · refine (Keeps.selectJobs hτ _).bind fun rows => ?_
          cases rows.head? with
          | none => exact fun _ _ _ => trivial
          | some fresh =>
            dsimp only
            split
            · exact .ret _
            · exact hhint
        · exact (cancelRuns_keeps hτ hflips hc now depth jobId).bind fun _ => .ret _

end TaskScheduler
