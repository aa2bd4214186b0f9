import TaskScheduler.Interleave.Rows
import TaskScheduler.Interleave.Spawning
import TaskScheduler.Ledger.Schedule

/-! The schedules of the recurring jobs beside consumers that interleave statement by statement, and
deliver an event any number of times: the runs of a job stay ticks of its cron expression, and an
event is stamped only where the schedule of its job goes on. -/

namespace TaskScheduler

open Lib

/-! ### Where a schedule goes on -/

/-- The schedule of the event's job is over, or has a run after the event's. -/
def Tables.Continued (t : Tables) (e : RunEvent) : Prop :=
  (∃ j ∈ t.jobs, j.jobId = e.jobId ∧ (j.cronExpr = none ∨ j.state = .cancelled)) ∨
    ∃ prev ∈ t.runs, ∃ s ∈ t.runs, prev.runId = e.runId ∧ prev.jobId = e.jobId ∧
      s.jobId = e.jobId ∧ prev.scheduledAt < s.scheduledAt

theorem Tables.Continued.sameEvent {t : Tables} {e e' : RunEvent} (h : t.Continued e)
    (hs : e.SameEvent e') : t.Continued e' := by
  unfold Tables.Continued
  rw [hs.jobId, hs.runId]
  exact h

/-- Later versions of the jobs and the same runs. -/
theorem Tables.Continued.mono {t t' : Tables} {e : RunEvent} (h : t.Continued e)
    (hjobs : ∀ j ∈ t.jobs, ∃ j' ∈ t'.jobs, j.Since j')
    (hruns : ∀ r ∈ t.runs, ∃ r' ∈ t'.runs, r.SameRun r') : t'.Continued e := by
  rcases h with ⟨j, hj, hid, hover⟩ | ⟨prev, hprev, s, hs, hrun, hjob, hsj, hlt⟩
  · obtain ⟨j', hj', hsince⟩ := hjobs j hj
    refine .inl ⟨j', hj', hsince.jobId.trans hid, ?_⟩
    rcases hover with hcron | hcan
    · exact .inl ((since_aging.cronExpr hsince).symm.trans hcron)
    · rcases hsince with rfl | ⟨hactive, -⟩
      · exact .inr hcan
      · rw [hcan] at hactive
        cases hactive
  · obtain ⟨prev', hprev', hp⟩ := hruns prev hprev
    obtain ⟨s', hs', hss⟩ := hruns s hs
    refine .inr ⟨prev', hprev', s', hs', hp.runId.trans hrun, hp.jobId.trans hjob,
      hss.jobId.trans hsj, ?_⟩
    rw [hp.scheduledAt, hss.scheduledAt]
    exact hlt

section Writes

variable {τ : Terms} {libs : Libs} {k : Kind} {held : Held} {loaded : List Job} {t : Tables}
  {w : Write}

/-- A valid write keeps the rows, in later versions. -/
theorem Valid.forward (hw : Valid τ libs k held loaded t w) :
    (∀ j ∈ t.jobs, ∃ j' ∈ (w.apply t).jobs, j.Since j') ∧
      (∀ r ∈ t.runs, ∃ r' ∈ (w.apply t).runs, r.SameRun r') ∧
      ∀ e ∈ t.events, ∃ e' ∈ (w.apply t).events, e.SameEvent e' := by
  refine ⟨fun j hj => ?_, fun r hr => ?_, fun e he => ?_⟩
  · cases w with
    | insertJob row => exact ⟨j, List.mem_append_left _ hj, .inl rfl⟩
    | updateJobs ids set =>
      obtain ⟨-, -, ⟨now, hset⟩, hrows⟩ := hw
      refine ⟨_, List.mem_map.mpr ⟨j, hj, rfl⟩, ?_⟩
      split
      · next hin =>
        refine .inr ⟨(hrows j hj hin).1, now, ?_⟩
        rcases hset with rfl | rfl
        · exact .inl rfl
        · exact .inr rfl
      · exact .inl rfl
    | _ => exact ⟨j, hj, .inl rfl⟩
  · exact (persists_run r).write held loaded t w hw ⟨r, hr, .refl r⟩
  · exact (persists_event e).write held loaded t w hw ⟨e, he, .refl e⟩

theorem persists_continued (e : RunEvent) : Persists τ libs k fun t => t.Continued e where
  others held t t' ho h := by
    refine h.mono (fun j hj => ?_) fun r hr => ?_
    · obtain ⟨j', hj', hs, -⟩ := ho.jobs j hj
      exact ⟨j', hj', hs⟩
    · obtain ⟨r', hr', hs, -⟩ := ho.runs r hr
      exact ⟨r', hr', hs⟩
  write held loaded t w hw h := h.mono hw.forward.1 hw.forward.2.1

end Writes

/-! ### The writes of a consumer -/

/-- What the schedules rest on: a run has one end, and does not execute after it. -/
structure Tables.EndsOnce (t : Tables) : Prop where
  once : ∀ e ∈ t.events, ∀ e' ∈ t.events, e.eventType.terminal = true →
    e'.eventType.terminal = true → e.runId = e'.runId → e.occurredAt = e'.occurredAt
  ended : ∀ e ∈ t.events, e.eventType.terminal = true →
    ∃ r ∈ t.runs, r.runId = e.runId ∧ r.jobId = e.jobId ∧ r.status.executing = false

theorem Ended.endsOnce {t : Tables} {seq : Seq} (h : Ended t) (hk : Coherent t seq) : t.EndsOnce where
  once := h.occurredAt_eq hk
  ended e he hterm := by
    obtain ⟨r, hr, hrun, hjob⟩ := hk.event_run e he
    refine ⟨r, hr, hrun, hjob, ?_⟩
    rw [RunStatus.executing_eq_not_terminal, h.ended e he hterm r hr hrun]
    rfl

/-- The invariant of the tables that the sessions see. -/
structure Tables.Regular (libs : Libs) (t : Tables) : Prop where
  scheduled : t.Scheduled libs
  endsOnce : t.EndsOnce

/-- The jobs that a session has loaded, as far as their columns do not change. -/
def Tables.Knows (t : Tables) (loaded : List Job) : Prop :=
  ∀ c ∈ loaded, ∀ j ∈ t.jobs, c.jobId = j.jobId →
    c.cronExpr = j.cronExpr ∧ c.timezone = j.timezone ∧ c.triggerOnJobId = j.triggerOnJobId

theorem not_writesBlindly {k : Kind} (hk : k.consumes = true) (id : Nat) : ¬k.writesBlindly id := by
  cases k with
  | finish now runId jobId outcome => cases hk
  | _ => exact fun h => h

theorem consumes_not_creates {k : Kind} (hk : k.consumes = true) : k.creates = false := by
  cases k with
  | create now args => cases hk
  | _ => rfl

section Consumer

variable {τ : Terms} {libs : Libs} {k : Kind} {held : Held} {loaded : List Job} {t : Tables}

/-- A run that a consumer inserts follows the last run of its job. -/
theorem Tables.Regular.insertRun (h : t.Regular libs) (hcalm : τ.calm) (hk : k.consumes = true)
    (hl : Linked t) (hknows : t.Knows loaded) {row : JobRun}
    (hw : NewRun τ libs k held loaded t row) :
    ({ t with runs := t.runs ++ [row] } : Tables).Scheduled libs := by
  have hnew : ¬k.creates = true := by simp [consumes_not_creates hk]
  refine h.scheduled.addRun (hw.idle hcalm) (fun j hj hid hcron => ?_)
    fun j hj hid cron hcron r hr => ?_
  · cases hw.source with
    | initial hc hwait hfirst => exact hwait
    | successor hc hcid hlive hccron hwait => exact hwait
    | upstream hc hcid hactive htrigger =>
      -- a chained job has no schedule
      obtain ⟨-, -, htrig⟩ := hknows _ hc j hj (hcid.trans hid.symm)
      rw [(hl.lifecycle j hj).chained (by rw [← htrig, htrigger]; rfl)] at hcron
      cases hcron
  · cases hw.source with
    | initial hc => exact absurd hc hnew
    | @successor c cron' e prev hc hcid hlive hccron hwait he hterm hprev hrun hjob hnext =>
      obtain ⟨hcc, hzone, -⟩ := hknows c hc j hj (hcid.trans hid.symm)
      rw [hccron, hcron, Option.some.injEq] at hcc
      subst hcc
      have hz : c.zone = j.zone := by rw [Job.zone, Job.zone, hzone]
      rw [hz] at hnext
      rw [← hid] at hr
      have hlast := h.scheduled.tick_after hj hcron h.endsOnce.once he hterm
        (Tables.mem_jobRuns.mpr ⟨hprev, hjob.trans (hcid.trans hid.symm)⟩) hrun hnext
        (fun x hx hnone => ?_) r hr
      · rw [hlast]
        exact ⟨e, he, hterm, hrun.symm, hnext⟩
      · obtain ⟨hx, hxj⟩ := Tables.mem_jobRuns.mp hx
        exact (hw.index x hx (hxj.trans hid)).2 hwait hnone
    | upstream hc hcid hactive htrigger =>
      obtain ⟨-, -, htrig⟩ := hknows _ hc j hj (hcid.trans hid.symm)
      rw [(hl.lifecycle j hj).chained (by rw [← htrig, htrigger]; rfl)] at hcron
      cases hcron

/-- Every write of a consumer keeps the schedules. -/
theorem Tables.Regular.apply (h : t.Regular libs) (hcalm : τ.calm) (hfinal : τ.final)
    (hk : k.consumes = true) (hl : Linked t) (hknows : t.Knows loaded) {w : Write}
    (hw : Valid τ libs k held loaded t w) : (w.apply t).Regular libs := by
  obtain ⟨hsched, honce, hended⟩ := h
  cases w with
  | insertJob row =>
    have := hw.1
    rw [consumes_not_creates hk] at this
    cases this
  | updateJobs ids set =>
    refine ⟨hsched.congr (.updateJobs fun j => ?_), honce, hended⟩
    obtain ⟨now, rfl | rfl⟩ := hw.2.2.1 <;> exact ⟨rfl, rfl, rfl⟩
  | insertRun row =>
    refine ⟨Tables.Regular.insertRun ⟨hsched, honce, hended⟩ hcalm hk hl hknows hw, honce, ?_⟩
    intro e he hterm
    obtain ⟨r, hr, hrest⟩ := hended e he hterm
    exact ⟨r, List.mem_append_left _ hr, hrest⟩
  | updateRuns ids set =>
    obtain ⟨hsame, -, hrows⟩ := hw
    have hset : ∀ r ∈ t.runs, r.runId ∈ ids → r.SameRun (set r) ∧
        ((set r).status.executing = true → r.status.executing = true) := fun r hr hin =>
      ⟨hsame r, fun hex => ((hrows r hr hin).1 hex).resolve_right (not_writesBlindly hk r.runId)⟩
    refine ⟨hsched.congr (.updateRuns hset), honce, fun e he hterm => ?_⟩
    obtain ⟨r, hr, hrun, hjob, hidle⟩ := hended e he hterm
    refine ⟨_, List.mem_map.mpr ⟨r, hr, rfl⟩, ?_⟩
    split
    · next hin =>
      obtain ⟨hs, hlive⟩ := hset r hr hin
      refine ⟨hs.runId.trans hrun, hs.jobId.trans hjob, ?_⟩
      rw [← Bool.not_eq_true]
      intro hex
      rw [hlive hex] at hidle
      cases hidle
    · exact ⟨hrun, hjob, hidle⟩
  | insertEvent row =>
    obtain ⟨hrow, hend⟩ := hw
    refine ⟨hsched.congr .addEvent, fun e he e' he' hterm hterm' hrun => ?_, fun e he hterm => ?_⟩
    · rcases List.mem_append.mp he with he | he <;> rcases List.mem_append.mp he' with he' | he'
      · exact honce e he e' he' hterm hterm' hrun
      · rw [List.mem_singleton.mp he'] at hterm' hrun
        exact absurd hrun (((hend hterm').2 hfinal).2 e he hterm)
      · rw [List.mem_singleton.mp he] at hterm hrun
        exact absurd hrun.symm (((hend hterm).2 hfinal).2 e' he' hterm')
      · rw [List.mem_singleton.mp he, List.mem_singleton.mp he']
    · rcases List.mem_append.mp he with he | he
      · exact hended e he hterm
      · rw [List.mem_singleton.mp he] at hterm ⊢
        obtain ⟨r, hr, hrun, hjob⟩ := hrow
        refine ⟨r, hr, hrun, hjob, ?_⟩
        rw [RunStatus.executing_eq_not_terminal, ((hend hterm).2 hfinal).1 r hr hrun]
        rfl
  | updateEvents ids set =>
    obtain ⟨_, by_, -, rfl, -⟩ := hw
    have hback : ∀ e' ∈ t.events.map (fun e => if e.eventId ∈ ids then
        { e with processedBy := by_ } else e), ∃ e ∈ t.events, e.SameEvent e' := by
      intro e' he'
      obtain ⟨e, he, rfl⟩ := List.mem_map.mp he'
      refine ⟨e, he, ?_⟩
      split <;> rfl
    refine ⟨hsched.congr (.updateEvents fun e => ⟨rfl, rfl, rfl⟩), ?_, ?_⟩
    · intro e he e' he' hterm hterm' hrun
      obtain ⟨a, ha, hs⟩ := hback e he
      obtain ⟨b, hb, hs'⟩ := hback e' he'
      rw [hs.occurredAt, hs'.occurredAt]
      exact honce a ha b hb (hs.eventType ▸ hterm) (hs'.eventType ▸ hterm')
        (by rw [← hs.runId, ← hs'.runId, hrun])
    · intro e he hterm
      obtain ⟨a, ha, hs⟩ := hback e he
      rw [hs.runId, hs.jobId]
      exact hended a ha (hs.eventType ▸ hterm)

/-- What a session knows of the jobs stays right. -/
theorem Tables.Knows.apply (h : t.Knows loaded) (hk : k.creates = false) {w : Write}
    (hw : Valid τ libs k held loaded t w) : (w.apply t).Knows loaded := by
  cases w with
  | insertJob row =>
    have := hw.1
    rw [hk] at this
    cases this
  | updateJobs ids set =>
    intro c hc j' hj' hid
    obtain ⟨j, hj, rfl⟩ := List.mem_map.mp hj'
    split at hid
    · next hin =>
      rw [if_pos hin]
      obtain ⟨now, rfl | rfl⟩ := hw.2.2.1 <;> exact h c hc j hj hid
    · next hin =>
      rw [if_neg hin]
      exact h c hc j hj hid
  | _ => exact h

end Consumer

end TaskScheduler
