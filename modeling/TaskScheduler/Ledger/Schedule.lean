import Mathlib.Data.List.Chain
import TaskScheduler.Ledger.Ended

/-! The schedule of a recurring job: its runs are ticks of the cron expression, each one called for
by the end of the run before it, and only the last of them executes. -/

namespace TaskScheduler

/-- Run `s` is the tick that the end of run `r` calls for. -/
def Tables.Ticks (t : Tables) (libs : Libs) (cron zone : String) (r s : JobRun) : Prop :=
  ∃ e ∈ t.events, e.eventType.terminal = true ∧ e.runId = r.runId ∧
    nextAfter libs cron zone (successorAnchor r e.occurredAt) = some s.scheduledAt

/-- The runs of a job in the order in which they were created. -/
def Tables.jobRuns (t : Tables) (jobId : Nat) : List JobRun := t.runs.filter fun r => r.jobId == jobId

theorem Tables.mem_jobRuns {t : Tables} {jobId : Nat} {r : JobRun} :
    r ∈ t.jobRuns jobId ↔ r ∈ t.runs ∧ r.jobId = jobId := by
  simp [Tables.jobRuns]

/-- Nothing that the ticks of a schedule depend on has changed, and no run revives. -/
structure Tables.SameTicks (t t' : Tables) : Prop where
  runs : ∃ f, t'.runs = t.runs.map f ∧ ∀ r ∈ t.runs, r.SameRun (f r) ∧
    ((f r).status.executing = true → r.status.executing = true)
  events : ∀ e ∈ t.events, ∃ e' ∈ t'.events, e'.eventType = e.eventType ∧ e'.runId = e.runId ∧
    e'.occurredAt = e.occurredAt
  jobs : ∀ j' ∈ t'.jobs, ∃ j ∈ t.jobs, j'.jobId = j.jobId ∧ j'.cronExpr = j.cronExpr ∧
    j'.zone = j.zone

namespace Tables.SameTicks

variable {t t' : Tables}

theorem of_runs (hruns : t'.runs = t.runs)
    (hevents : ∀ e ∈ t.events, ∃ e' ∈ t'.events, e'.eventType = e.eventType ∧ e'.runId = e.runId ∧
      e'.occurredAt = e.occurredAt)
    (hjobs : ∀ j' ∈ t'.jobs, ∃ j ∈ t.jobs, j'.jobId = j.jobId ∧ j'.cronExpr = j.cronExpr ∧
      j'.zone = j.zone) : t.SameTicks t' where
  runs := ⟨fun r => r, hruns.trans (List.map_id _).symm, fun r _ => ⟨.refl r, fun h => h⟩⟩
  events := hevents
  jobs := hjobs

theorem updateRuns {p : JobRun → Prop} [DecidablePred p] {set : JobRun → JobRun}
    (hset : ∀ r ∈ t.runs, p r → r.SameRun (set r) ∧
      ((set r).status.executing = true → r.status.executing = true)) :
    t.SameTicks { t with runs := t.runs.map fun r => if p r then set r else r } where
  runs := by
    refine ⟨_, rfl, fun r hr => ?_⟩
    split
    · next hp => exact hset r hr hp
    · exact ⟨.refl r, fun h => h⟩
  events e he := ⟨e, he, rfl, rfl, rfl⟩
  jobs j hj := ⟨j, hj, rfl, rfl, rfl⟩

theorem updateJobs {p : Job → Prop} [DecidablePred p] {set : Job → Job}
    (hset : ∀ j, (set j).jobId = j.jobId ∧ (set j).cronExpr = j.cronExpr ∧
      (set j).timezone = j.timezone) :
    t.SameTicks { t with jobs := t.jobs.map fun j => if p j then set j else j } := by
  refine of_runs rfl (fun e he => ⟨e, he, rfl, rfl, rfl⟩) fun j' hj' => ?_
  obtain ⟨j, hj, rfl⟩ := List.mem_map.mp hj'
  refine ⟨j, hj, ?_⟩
  split
  · obtain ⟨hid, hcron, hzone⟩ := hset j
    exact ⟨hid, hcron, by rw [Job.zone, Job.zone, hzone]⟩
  · exact ⟨rfl, rfl, rfl⟩

theorem updateEvents {p : RunEvent → Prop} [DecidablePred p] {set : RunEvent → RunEvent}
    (hset : ∀ e, (set e).eventType = e.eventType ∧ (set e).runId = e.runId ∧
      (set e).occurredAt = e.occurredAt) :
    t.SameTicks { t with events := t.events.map fun e => if p e then set e else e } := by
  refine of_runs rfl (fun e he => ⟨_, List.mem_map.mpr ⟨e, he, rfl⟩, ?_⟩)
    fun j hj => ⟨j, hj, rfl, rfl, rfl⟩
  split
  · exact hset e
  · exact ⟨rfl, rfl, rfl⟩

theorem addEvent {row : RunEvent} : t.SameTicks { t with events := t.events ++ [row] } :=
  of_runs rfl (fun e he => ⟨e, List.mem_append_left _ he, rfl, rfl, rfl⟩)
    fun j hj => ⟨j, hj, rfl, rfl, rfl⟩

end Tables.SameTicks

/-- The invariant of the schedules: a recurring job has no run with an upstream, its runs are ticks,
and a run that executes is the last of its job. -/
structure Tables.Scheduled (libs : Libs) (t : Tables) : Prop where
  unchained : ∀ j ∈ t.jobs, j.cronExpr.isSome = true → ∀ r ∈ t.jobRuns j.jobId,
    r.waitForRunId = none
  ticks : ∀ j ∈ t.jobs, ∀ cron, j.cronExpr = some cron →
    (t.jobRuns j.jobId).IsChain (t.Ticks libs cron j.zone)
  last : ∀ jobId before r after, t.jobRuns jobId = before ++ r :: after →
    r.status.executing = true → after = []

namespace Tables.Scheduled

variable {libs : Libs} {t t' : Tables} {seq : Seq}

theorem congr (h : t.Scheduled libs) (hs : t.SameTicks t') : t'.Scheduled libs := by
  obtain ⟨f, hruns, hf⟩ := hs.runs
  have hjobRuns : ∀ id, t'.jobRuns id = (t.jobRuns id).map f := by
    intro id
    rw [jobRuns, jobRuns, hruns, List.filter_map]
    refine congrArg (List.map f) (List.filter_congr fun r hr => ?_)
    simp only [Function.comp_apply, (hf r hr).1.jobId]
  constructor
  · intro j' hj' hcron r' hr'
    obtain ⟨j, hj, hjid, hjcron, -⟩ := hs.jobs j' hj'
    rw [hjobRuns, hjid] at hr'
    obtain ⟨r, hr, rfl⟩ := List.mem_map.mp hr'
    rw [(hf r (mem_jobRuns.mp hr).1).1.waitForRunId]
    exact h.unchained j hj (hjcron ▸ hcron) r hr
  · intro j' hj' cron hcron
    obtain ⟨j, hj, hjid, hjcron, hjzone⟩ := hs.jobs j' hj'
    rw [hjobRuns, hjid, List.isChain_map]
    refine (h.ticks j hj cron (hjcron ▸ hcron)).imp_of_mem_imp ?_
    rintro r s hr hs' ⟨e, he, hterm, hrun, hnext⟩
    have hfr := (hf r (mem_jobRuns.mp hr).1).1
    have hfs := (hf s (mem_jobRuns.mp hs').1).1
    obtain ⟨e', he', htype, hrun', hat⟩ := hs.events e he
    refine ⟨e', he', htype ▸ hterm, ?_, ?_⟩
    · rw [hrun', hfr.runId]
      exact hrun
    · rw [hjzone, successorAnchor, hfr.scheduledAt, hfs.scheduledAt, hat]
      exact hnext
  · intro id before r' after heq hexec
    rw [hjobRuns] at heq
    obtain ⟨before₀, rest, hsplit, -, hrest⟩ := List.map_eq_append_iff.mp heq
    obtain ⟨r, after₀, rfl, rfl, rfl⟩ := List.map_eq_cons_iff.mp hrest
    have hr : r ∈ t.jobRuns id := by
      rw [hsplit]
      simp
    have := h.last id before₀ r after₀ hsplit ((hf r (mem_jobRuns.mp hr).1).2 hexec)
    rw [this, List.map_nil]

/-- A run of a recurring job is the last one, or another one is its successor. -/
theorem successor (h : t.Scheduled libs) {j : Job} (hj : j ∈ t.jobs) {cron : String}
    (hcron : j.cronExpr = some cron) {r : JobRun} (hr : r ∈ t.jobRuns j.jobId) :
    (∃ before, t.jobRuns j.jobId = before ++ [r]) ∨
      ∃ s ∈ t.jobRuns j.jobId, t.Ticks libs cron j.zone r s := by
  obtain ⟨before, after, heq⟩ := List.append_of_mem hr
  cases after with
  | nil => exact .inl ⟨before, heq⟩
  | cons s after =>
    have hchain := h.ticks j hj cron hcron
    rw [heq] at hchain
    refine .inr ⟨s, ?_, (List.isChain_append_cons_cons.mp hchain).2.1⟩
    rw [heq]
    simp

/-- A new run of a job that executes nothing, which follows the last run of the job if the job is
recurring. -/
theorem addRun (h : t.Scheduled libs) {row : JobRun} (hidle : ¬t.Executing row.jobId)
    (hunchained : ∀ j ∈ t.jobs, j.jobId = row.jobId → j.cronExpr.isSome = true →
      row.waitForRunId = none)
    (hnext : ∀ j ∈ t.jobs, j.jobId = row.jobId → ∀ cron, j.cronExpr = some cron →
      ∀ r ∈ (t.jobRuns row.jobId).getLast?, t.Ticks libs cron j.zone r row) :
    ({ t with runs := t.runs ++ [row] } : Tables).Scheduled libs := by
  have hself : ({ t with runs := t.runs ++ [row] } : Tables).jobRuns row.jobId =
      t.jobRuns row.jobId ++ [row] := by
    simp [jobRuns, List.filter_append]
  have hother : ∀ id, row.jobId ≠ id →
      ({ t with runs := t.runs ++ [row] } : Tables).jobRuns id = t.jobRuns id := by
    intro id hne
    simp [jobRuns, List.filter_append, hne]
  constructor
  · intro j hj hcron r hr
    by_cases hid : row.jobId = j.jobId
    · rw [← hid, hself] at hr
      rcases List.mem_append.mp hr with hr | hr
      · exact h.unchained j hj hcron r (hid ▸ hr)
      · rw [List.mem_singleton.mp hr]
        exact hunchained j hj hid.symm hcron
    · rw [hother _ hid] at hr
      exact h.unchained j hj hcron r hr
  · intro j hj cron hcron
    by_cases hid : row.jobId = j.jobId
    · rw [← hid, hself]
      refine (hid ▸ h.ticks j hj cron hcron : (t.jobRuns row.jobId).IsChain _).append
        (List.isChain_singleton _) fun a ha b hb => ?_
      simp only [List.head?_cons, Option.mem_def, Option.some.injEq] at hb
      exact hb ▸ hnext j hj hid.symm cron hcron a ha
    · rw [hother _ hid]
      exact h.ticks j hj cron hcron
  · intro id before r after heq hexec
    by_cases hid : row.jobId = id
    · subst hid
      rw [hself] at heq
      rcases List.eq_nil_or_concat after with rfl | ⟨after', s, rfl⟩
      · rfl
      · -- an earlier run that executes would make the job executing
        rw [List.concat_eq_append, ← List.cons_append, ← List.append_assoc] at heq
        have hr : r ∈ t.jobRuns row.jobId := by
          rw [List.append_inj_left' heq rfl]
          simp
        obtain ⟨hr, hjob⟩ := mem_jobRuns.mp hr
        exact absurd ⟨r, hr, hjob, hexec⟩ hidle
    · rw [hother _ hid] at heq
      exact h.last id before r after heq hexec

/-- The tick that a terminal event of the last run calls for, or of an earlier run: that one exists
already. -/
theorem tick_after (h : t.Scheduled libs) {j : Job} (hj : j ∈ t.jobs) {cron : String}
    (hcron : j.cronExpr = some cron)
    (honce : ∀ e ∈ t.events, ∀ e' ∈ t.events, e.eventType.terminal = true →
      e'.eventType.terminal = true → e.runId = e'.runId → e.occurredAt = e'.occurredAt)
    {e : RunEvent} (he : e ∈ t.events) (hterm : e.eventType.terminal = true) {prev : JobRun}
    (hprev : prev ∈ t.jobRuns j.jobId) (hrun : prev.runId = e.runId) {runAt : Int}
    (hnext : nextAfter libs cron j.zone (successorAnchor prev e.occurredAt) = some runAt)
    (hindex : ∀ x ∈ t.jobRuns j.jobId, x.waitForRunId = none → x.scheduledAt ≠ runAt) :
    ∀ r ∈ (t.jobRuns j.jobId).getLast?, r = prev := by
  rcases h.successor hj hcron hprev with ⟨before, hlast⟩ | ⟨s, hs, e', he', hterm', hrun', hnext'⟩
  · intro r hr
    rw [hlast, List.getLast?_append_of_ne_nil _ (by simp), List.getLast?_singleton, Option.mem_def,
      Option.some.injEq] at hr
    exact hr.symm
  · -- the successor of a run is the only tick that its end calls for
    rw [honce e' he' e he hterm' hterm (hrun'.trans hrun), hnext, Option.some.injEq] at hnext'
    exact absurd hnext'.symm (hindex s hs (h.unchained j hj (by rw [hcron]; rfl) s hs))

end Tables.Scheduled

/-- A run has one end. -/
theorem Ended.occurredAt_eq {t : Tables} {seq : Seq} (h : Ended t) (hk : Coherent t seq) :
    ∀ e ∈ t.events, ∀ e' ∈ t.events, e.eventType.terminal = true → e'.eventType.terminal = true →
      e.runId = e'.runId → e.occurredAt = e'.occurredAt := by
  intro e he e' he' hterm hterm' hrun
  rw [hk.event_eq he he' (h.once e he e' he' hterm hterm' hrun)]

/-- The schedules with the ends of the runs that they rest on. -/
structure Ledger.OnSchedule (libs : Libs) (L : Ledger) : Prop where
  ended : Ended L.tables
  scheduled : L.tables.Scheduled libs

namespace Ledger.OnSchedule

variable {m : Mode} {libs : Libs} {L L' : Ledger}

theorem addJob (h : L.OnSchedule libs) (hk : Coherent L.tables L.seq) {start : Int} {row : Job} :
    (L.addJob start row).tables.Scheduled libs := by
  -- a new job has no runs
  have hnil : L.tables.jobRuns L.seq.jobs = [] := by
    refine List.filter_eq_nil_iff.mpr fun r hr hid => ?_
    obtain ⟨i, hi, hii⟩ := hk.run_job r hr
    have hlt := hk.jobs.below i hi
    rw [beq_iff_eq] at hid
    omega
  refine ⟨fun j hj hcron r hr => ?_, fun j hj cron hcron => ?_, h.scheduled.last⟩
  · rcases List.mem_append.mp hj with hj | hj
    · exact h.scheduled.unchained j hj hcron r hr
    · rw [List.mem_singleton.mp hj] at hr
      have hr : r ∈ L.tables.jobRuns L.seq.jobs := hr
      rw [hnil] at hr
      cases hr
  · rcases List.mem_append.mp hj with hj | hj
    · exact h.scheduled.ticks j hj cron hcron
    · rw [List.mem_singleton.mp hj]
      change (L.tables.jobRuns L.seq.jobs).IsChain _
      rw [hnil]
      exact .nil

theorem spawn (h : L.OnSchedule libs) (hk : Coherent L.tables L.seq) {start runAt : Int}
    {job entity : Job} {wait : Option Nat} (hjob : job ∈ L.tables.jobs)
    (hsame : entity.jobId = job.jobId) (hidle : ¬L.tables.Executing job.jobId)
    (hclash : L.tables.runs.any
      (storedRun L.seq start (.new entity runAt .pending wait)).clashes = false)
    (hcause : Cause m libs L job runAt wait) :
    (L.addRun start (.new entity runAt .pending wait)).tables.Scheduled libs := by
  have hid : (storedRun L.seq start (.new entity runAt .pending wait)).jobId = job.jobId := hsame
  -- a job with an upstream has no schedule
  have hwait : ∀ w, wait = some w → job.cronExpr = none := by
    rintro w rfl
    cases hcause with
    | upstream he ht hnew hspent hdue hchild =>
      exact (hk.lifecycle job hjob).chained (by rw [hchild]; rfl)
  refine h.scheduled.addRun (hid ▸ hidle) (fun j hj hji hcron => ?_) fun j hj hji cron hcron r hr => ?_
  · have heq := hk.job_eq hj hjob (hji.trans hid)
    subst heq
    cases hw : wait with
    | none => rfl
    | some w =>
      rw [hwait w hw] at hcron
      cases hcron
  · have heq := hk.job_eq hj hjob (hji.trans hid)
    subst heq
    rw [hid] at hr
    cases hcause with
    | initial hnone hfirst =>
      obtain ⟨hmem, hrj⟩ := Tables.mem_jobRuns.mp (List.mem_of_getLast? hr)
      exact absurd hrj (hfirst r hmem)
    | @successor cron' e prev hcron' he hterm hprev hrun hprevJob hnext =>
      rw [hcron, Option.some.injEq] at hcron'
      subst hcron'
      have hlast := h.scheduled.tick_after hj hcron (h.ended.occurredAt_eq hk) he hterm
        (Tables.mem_jobRuns.mpr ⟨hprev, hprevJob⟩) hrun hnext (fun x hx hnone htick => ?_) r hr
      · rw [hlast]
        exact ⟨e, he, hterm, hrun.symm, hnext⟩
      · rw [List.any_eq_false] at hclash
        refine hclash x (Tables.mem_jobRuns.mp hx).1 ?_
        simp [JobRun.clashes, storedRun, JobRun.new, hsame, (Tables.mem_jobRuns.mp hx).2, htick, hnone]
    | upstream he ht hnew hspent hdue hchild =>
      rw [hwait _ rfl] at hcron
      cases hcron

theorem change (h : L.OnSchedule libs) (hk : Coherent L.tables L.seq) (hc : Change m libs L L') :
    L'.OnSchedule libs := by
  refine ⟨h.ended.change hk hc, ?_⟩
  cases hc with
  | addJob hstate hlife hparent => exact h.addJob hk
  | spawn hjob hsame hactive hidle hclash hcause =>
    exact (h.spawn hk hjob hsame hidle hclash hcause).congr .addEvent
  | @move _ r set _ _ hdue hr hset htrans hends =>
    refine (h.scheduled.congr (.updateRuns fun x hx hid => ?_)).congr .addEvent
    rw [hk.run_eq hx hr hid]
    exact ⟨hset, fun _ => htrans.executing⟩
  | @touch r set hr hset hstatus =>
    refine h.scheduled.congr (.updateRuns fun x hx hid => ?_)
    rw [hk.run_eq hx hr hid]
    exact ⟨hset, fun h => hstatus ▸ h⟩
  | skip he hterminal hnew hspent hjob hchild hskip => exact h.scheduled.congr .addEvent
  | stamp hspent hkey => exact h.scheduled.congr (.updateEvents fun e => ⟨rfl, rfl, rfl⟩)
  | settle | retire | cancel => exact h.scheduled.congr (.updateJobs fun j => ⟨rfl, rfl, rfl⟩)
  | burn | clear | mark => exact h.scheduled

end Ledger.OnSchedule

/-! ### The order of the ticks -/

section Order

variable {libs : Libs} {occurs : String → String → Int → Prop} {t : Tables}

/-- The tick after a run is the first occurrence past it and not before its end. -/
theorem Tables.Ticks.least (hlibs : libs.NextIsLeast occurs) {cron zone : String} {r s : JobRun}
    (h : t.Ticks libs cron zone r s) : ∃ e ∈ t.events, e.eventType.terminal = true ∧
      e.runId = r.runId ∧ occurs cron zone s.scheduledAt ∧ r.scheduledAt < s.scheduledAt ∧
      e.occurredAt ≤ s.scheduledAt ∧
      ∀ x, e.occurredAt ≤ x → r.scheduledAt < x → x < s.scheduledAt → ¬occurs cron zone x := by
  obtain ⟨e, he, hterm, hrun, hnext⟩ := h
  obtain ⟨hocc, hle, hleast⟩ := nextAfter_least hlibs hnext
  simp only [successorAnchor, microsecond] at hle hleast
  refine ⟨e, he, hterm, hrun, hocc, by omega, by omega, fun x hat hgt hlt => ?_⟩
  exact hleast x (by omega) hlt

/-- The ticks of a job are strictly increasing. -/
theorem Tables.Scheduled.increasing (h : t.Scheduled libs) (hlibs : libs.NextIsLeast occurs) {j : Job}
    (hj : j ∈ t.jobs) {cron : String} (hcron : j.cronExpr = some cron) :
    (t.jobRuns j.jobId).Pairwise fun r s => r.scheduledAt < s.scheduledAt := by
  have hchain : (t.jobRuns j.jobId).IsChain fun r s => r.scheduledAt < s.scheduledAt := by
    refine (h.ticks j hj cron hcron).imp fun r s hrs => ?_
    obtain ⟨_, _, _, _, _, hlt, _⟩ := hrs.least hlibs
    exact hlt
  have htrans : ((t.jobRuns j.jobId).map (·.scheduledAt)).Pairwise (· < ·) :=
    ((List.isChain_map _).mpr hchain).pairwise
  exact List.pairwise_map.mp htrans

end Order

end TaskScheduler
