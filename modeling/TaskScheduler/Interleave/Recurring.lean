import TaskScheduler.Interleave.Cursor
import TaskScheduler.Interleave.Schedule
import TaskScheduler.Tenant.Noninterference

/-! The schedule of a recurring job over whole runs of the system, with consumers that interleave
statement by statement and read an event any number of times: its runs are the ticks of its cron
expression, in order and without a gap, and while it is active it never stalls. -/

namespace TaskScheduler

open Lib

variable {occurs : String → String → Int → Prop}

/-! ### The terms of the schedules -/

/-- The consumer may stamp the event. -/
def Tables.Stampable (t : Tables) (e : RunEvent) : Prop :=
  (∃ e' ∈ t.events, e.SameEvent e') ∧ (e.eventType.terminal = true → t.Continued e)

/-- The terms of a system whose recurring jobs keep their schedules. -/
def Terms.schedules (libs : Libs) : Terms :=
  ⟨True, True, fun t => t.Regular libs, Tables.Stampable, fun _ _ => True⟩

theorem persists_stampable {τ : Terms} {libs : Libs} {k : Kind} (e : RunEvent) :
    Persists τ libs k fun t => t.Stampable e where
  others held t t' ho h := by
    have hevent : Persists τ libs k fun t => ∃ e' ∈ t.events, e.SameEvent e' := persists_event e
    have hcontinued : Persists τ libs k fun t => t.Continued e := persists_continued e
    exact ⟨hevent.others held t t' ho h.1, fun hterm => hcontinued.others held t t' ho (h.2 hterm)⟩
  write held loaded t w hw h := ⟨(persists_event e).write held loaded t w hw h.1,
    fun hterm => (persists_continued e).write held loaded t w hw (h.2 hterm)⟩

theorem Terms.schedules_stable (libs : Libs) : (Terms.schedules libs).Stable := by
  intro held t t' e ho h
  have hstampable : Persists (Terms.schedules libs) libs (.poll 0 0) fun t => t.Stampable e :=
    persists_stampable e
  exact hstampable.others held t t' ho h

section Session

variable {libs : Libs} {k : Kind} {g : Site}

/-- A session knows the columns of the jobs that it has loaded. -/
theorem Kept.knows {τ : Terms} {writes : List Write} {held : Held} {loaded : List Job} {t : Tables}
    {seq : Seq} (h : Kept τ libs k writes held loaded t) (hk : Coherent t seq)
    (hc : k.creates = false) : t.Knows loaded := by
  intro c hcl j hj hid
  obtain ⟨i, hi, hci⟩ := h.entities c hcl
  obtain ⟨j', hj', hjj'⟩ := pointwise_right (replays_jobs h.replays)
    (List.mem_append_left (insertedJobs writes) hj)
  have hnd : ((Write.applyAll writes t).jobs.map (·.jobId)).Nodup := by
    rw [h.jobKeys hc]
    exact hk.jobs.nodup
  have heq : i = j' := List.inj_on_of_nodup_map hnd hi hj'
    (by rw [hci.jobId, hid, hjj'.jobId])
  subst heq
  have hcd := since_aging.sameDef hci
  have hjd := since_aging.sameDef hjj'
  rw [hcd, hjd]
  exact ⟨rfl, rfl, rfl⟩

/-- What a consumer sees is as regular as the committed tables. -/
theorem Kept.regular {writes : List Write} {held : Held} {loaded : List Job} {t : Tables}
    {seq : Seq} (h : Kept (.schedules libs) libs k writes held loaded t)
    (hcons : k.consumes = true) (hk : Coherent t seq) (hr : t.Regular libs) :
    (Write.applyAll writes t).Regular libs := by
  have hend := h.replays.invariant
    (P := fun t' => t'.Regular libs ∧ Linked t' ∧ t'.Knows loaded)
    (fun t' w _ hI hw => ⟨hI.1.apply trivial trivial hcons hI.2.1 hI.2.2 hw, hI.2.1.apply hw,
      hI.2.2.apply (consumes_not_creates hcons) hw⟩)
    ⟨hr, hk.linked, h.knows hk (consumes_not_creates hcons)⟩
  exact hend.1

/-- A job whose last run executes has a run after every one that has ended. -/
theorem Tables.Regular.continued_of_executing {t : Tables} (h : t.Regular libs)
    (hlibs : libs.NextIsLeast occurs) (hl : Linked t) {e e' : RunEvent} (he : e' ∈ t.events)
    (hs : e.SameEvent e') (hterm : e.eventType.terminal = true) (hex : t.Executing e.jobId) :
    t.Continued e := by
  obtain ⟨x, hx, hxj, hxe⟩ := hex
  obtain ⟨j, hj, hjx⟩ := hl.run_job x hx
  have hjid : j.jobId = e.jobId := hjx.trans hxj
  cases hcron : j.cronExpr with
  | none => exact .inl ⟨j, hj, hjid, .inl hcron⟩
  | some cron =>
    obtain ⟨r, hr, hrun, hrj, hidle⟩ := h.endsOnce.ended e' he (hs.eventType ▸ hterm)
    rw [hs.runId] at hrun
    rw [hs.jobId] at hrj
    obtain ⟨before, after, hsplit⟩ :=
      List.append_of_mem (Tables.mem_jobRuns.mpr ⟨hx, hxj.trans hjid.symm⟩)
    have hnil := h.scheduled.last j.jobId before x after hsplit hxe
    have hmem : r ∈ t.jobRuns j.jobId := Tables.mem_jobRuns.mpr ⟨hr, hrj.trans hjid.symm⟩
    have hpair := h.scheduled.increasing hlibs hj hcron
    rw [hsplit, hnil] at hmem hpair
    refine .inr ⟨r, hr, x, hx, hrun, hrj, hxj, ?_⟩
    rcases List.mem_append.mp hmem with hmem | hmem
    · exact (List.pairwise_append.mp hpair).2.2 r hmem x List.mem_cons_self
    · -- the run that executes has not ended
      rw [List.mem_singleton.mp hmem, hxe] at hidle
      cases hidle

/-- Where a consumer stamps an event, the schedule of its job goes on. -/
theorem schedules_continues (hlibs : libs.NextIsLeast occurs) (hcons : k.consumes = true)
    (e : RunEvent) : Continues (.schedules libs) libs k e where
  persists := persists_stampable e
  ended t he hover := ⟨he, fun _ => .inl hover⟩
  busy g hk hcoh hinv he hex := by
    refine ⟨he, fun hterm => ?_⟩
    obtain ⟨e', he', hs⟩ := he
    exact (hk.now.regular hcons hcoh hinv).continued_of_executing hlibs
      (hk.now.linked hcoh.linked) he' hs hterm hex
  tick t prev x cron zone he hprev hx hrun hjob hxj hnext := by
    refine ⟨he, fun _ => .inr ⟨prev, hprev, x, hx, hrun, hjob, hxj, ?_⟩⟩
    have hle := (nextAfter_least hlibs hnext).2.1
    simp only [successorAnchor, microsecond] at hle
    omega

theorem schedules_admits (hlibs : libs.NextIsLeast occurs) (hcons : k.consumes = true) :
    (Terms.schedules libs).Admits libs k := by
  cases k with
  | poll | deliver => exact fun e => schedules_continues hlibs rfl e
  | _ => cases hcons

end Session

/-! ### What a consumer commits -/

/-- The run events of `t'` are those of `t`: none that is terminal is new, and one that is stamped
was so before, or may be stamped now. -/
structure Tables.Stamps (t t' : Tables) : Prop where
  stays : ∀ e ∈ t.events, ∃ e' ∈ t'.events, e.SameEvent e'
  back : ∀ e' ∈ t'.events, e'.eventType.terminal = true → ∃ e ∈ t.events, e.SameEvent e' ∧
    (e' = e ∨ ∃ x, x.eventId = e'.eventId ∧ t'.Stampable x)

section Commit

variable {libs : Libs} {k : Kind} {held : Held} {loaded : List Job} {ws : List Write} {t : Tables}
  {seq : Seq}

theorem continues_stamps (h : Replays Write.apply (Valid (.schedules libs) libs k held loaded) ws t)
    (hws : ∀ w ∈ ws, w.Continues) : t.Stamps (Write.applyAll ws t) := by
  refine h.invariant (P := fun t' => t.Stamps t') (fun t₁ w hw hI hv => ?_)
    ⟨fun e he => ⟨e, he, .refl e⟩, fun e he _ => ⟨e, he, .refl e, .inl rfl⟩⟩
  have hforward := hv.forward
  have hstays : ∀ e ∈ t.events, ∃ e' ∈ (w.apply t₁).events, e.SameEvent e' := by
    intro e he
    obtain ⟨e₁, he₁, hs₁⟩ := hI.stays e he
    obtain ⟨e₂, he₂, hs₂⟩ := hforward.2.2 e₁ he₁
    exact ⟨e₂, he₂, hs₁.trans hs₂⟩
  have hold : ∀ e₁ ∈ t₁.events, e₁.eventType.terminal = true → ∃ e ∈ t.events, e.SameEvent e₁ ∧
      (e₁ = e ∨ ∃ x, x.eventId = e₁.eventId ∧ (w.apply t₁).Stampable x) := by
    intro e₁ he₁ hterm
    obtain ⟨e, he, hs, heq | ⟨x, hid, hx⟩⟩ := hI.back e₁ he₁ hterm
    · exact ⟨e, he, hs, .inl heq⟩
    · exact ⟨e, he, hs, .inr ⟨x, hid, (persists_stampable x).write held loaded t₁ w hv hx⟩⟩
  refine ⟨hstays, ?_⟩
  have hc := hws w hw
  cases w with
  | insertEvent row =>
    intro e' he' hterm
    rcases List.mem_append.mp he' with he' | he'
    · exact hold e' he' hterm
    · have hquiet : row.eventType.terminal = false := hc
      rw [List.mem_singleton.mp he', hquiet] at hterm
      cases hterm
  | updateEvents ids set =>
    have hv' := hv
    obtain ⟨x, by_, hids, rfl, hx⟩ := hv
    intro e' he' hterm
    obtain ⟨e₁, he₁, rfl⟩ := List.mem_map.mp he'
    split at hterm
    · next hin =>
      obtain ⟨e, he, hs, -⟩ := hold e₁ he₁ hterm
      rw [if_pos hin]
      refine ⟨e, he, hs.trans rfl, .inr ⟨x, (hids _ hin).symm, ?_⟩⟩
      exact (persists_stampable x).write held loaded t₁ _ hv' hx
    · next hin =>
      rw [if_neg hin]
      exact hold e₁ he₁ hterm
  | _ => exact hold

/-- The runs that a consumer adds are pending. -/
theorem continues_pending {τ : Terms} (h : Replays Write.apply (Valid τ libs k held loaded) ws t)
    (hws : ∀ w ∈ ws, w.Continues) : ∃ new, (Write.applyAll ws t).runs = t.runs ++ new ∧
      ∀ r ∈ new, r.status = .pending := by
  refine h.invariant (P := fun t' => ∃ new, t'.runs = t.runs ++ new ∧ ∀ r ∈ new, r.status = .pending)
    (fun t₁ w hw hI hv => ?_) ⟨[], (List.append_nil _).symm, by simp⟩
  obtain ⟨new, hruns, hnew⟩ := hI
  have hc := hws w hw
  cases w with
  | insertRun row =>
    refine ⟨new ++ [row], ?_, fun r hr => ?_⟩
    · change t₁.runs ++ [row] = _
      rw [hruns, List.append_assoc]
    · rcases List.mem_append.mp hr with hr | hr
      · exact hnew r hr
      · exact List.mem_singleton.mp hr ▸ hv.status
  | updateRuns ids set => exact hc.elim
  | _ => exact ⟨new, hruns, hnew⟩

/-- A consumer ends no run. -/
theorem Ended.continues {t' : Tables} {seq' : Seq} (h : Ended t) (hk : Coherent t seq)
    (hk' : Coherent t' seq')
    (hruns : ∃ new, t'.runs = t.runs ++ new ∧ ∀ r ∈ new, r.status = .pending)
    (hstays : ∀ e ∈ t.events, ∃ e' ∈ t'.events, e.SameEvent e')
    (hback : ∀ e' ∈ t'.events, e'.eventType.terminal = true → ∃ e ∈ t.events, e.SameEvent e') :
    Ended t' := by
  obtain ⟨new, hruns, hnew⟩ := hruns
  refine ⟨fun e he hterm r hr hid => ?_, fun r hr hterm => ?_, fun a ha b hb hta htb hid => ?_⟩
  · obtain ⟨e₀, he₀, hs⟩ := hback e he hterm
    obtain ⟨r₀, hr₀, hrun, -⟩ := hk.event_run e₀ he₀
    have hold : r₀ ∈ t'.runs := hruns ▸ List.mem_append_left _ hr₀
    rw [hk'.run_eq hr hold (hid.trans (hs.runId.trans hrun.symm))]
    exact h.ended e₀ he₀ (hs.eventType ▸ hterm) r₀ hr₀ hrun
  · rw [hruns] at hr
    rcases List.mem_append.mp hr with hr | hr
    · obtain ⟨e, he, hte, hrun⟩ := h.recorded r hr hterm
      obtain ⟨e', he', hs⟩ := hstays e he
      exact ⟨e', he', hs.eventType ▸ hte, hs.runId.trans hrun⟩
    · rw [hnew r hr] at hterm
      cases hterm
  · obtain ⟨a₀, ha₀, hsa⟩ := hback a ha hta
    obtain ⟨b₀, hb₀, hsb⟩ := hback b hb htb
    rw [hsa.eventId, hsb.eventId]
    exact h.once a₀ ha₀ b₀ hb₀ (hsa.eventType ▸ hta) (hsb.eventType ▸ htb)
      (by rw [← hsa.runId, ← hsb.runId, hid])

end Commit

/-! ### The system -/

/-- The schedule of a job goes on wherever the consumer has stamped the end of one of its runs. -/
def Tables.Advanced (t : Tables) : Prop :=
  ∀ e ∈ t.events, e.eventType.terminal = true → e.unprocessed = false → t.Continued e

theorem Tables.Advanced.stamps {t t' : Tables} {seq : Seq} (h : t.Advanced)
    (hk' : Coherent t' seq) (hjobs : ∀ j ∈ t.jobs, ∃ j' ∈ t'.jobs, j.Since j')
    (hruns : ∀ r ∈ t.runs, ∃ r' ∈ t'.runs, r.SameRun r') (hstamps : t.Stamps t') : t'.Advanced := by
  intro e' he' hterm hdone
  obtain ⟨e, he, hs, heq | ⟨x, hid, ⟨x', hx', hsx⟩, hcont⟩⟩ := hstamps.back e' he' hterm
  · subst heq
    exact (h _ he hterm hdone).mono hjobs hruns
  · have heq : x' = e' := hk'.event_eq hx' he' (hsx.eventId.trans hid)
    subst heq
    exact (hcont (hsx.eventType ▸ hterm)).sameEvent hsx

/-- An event without a stamp is unprocessed. -/
theorem RunEvent.unprocessed_of_unstamped {e : RunEvent} (hterm : e.eventType.terminal = true)
    (hnil : e.processedBy = []) : e.unprocessed = true := by
  simp [RunEvent.unprocessed, RunEvent.hasKey, hterm, hnil]

namespace Sys

variable {cfg : Config} {σ σ' : Sys}

/-- The invariant of a system whose recurring jobs keep their schedules. -/
structure Scheduling (cfg : Config) (σ : Sys) : Prop where
  interleaved : σ.Interleaved (.schedules cfg.libs) cfg
  ended : Ended σ.tables
  advanced : σ.tables.Advanced

/-- What a step has to keep, besides what `Interleaved` asks for by itself. -/
theorem Scheduling.of_tables (h : σ.Scheduling cfg) (hreach : Reach cfg ConsumersOk σ) {a : Act}
    (hok : σ.ConsumersOk a) (hadm : a.Admitted (.schedules cfg.libs) cfg σ)
    (hstep : σ.step cfg a = some σ') (hsched : σ'.tables.Scheduled cfg.libs)
    (hended : Ended σ'.tables) (hadv : σ'.tables.Advanced) : σ'.Scheduling cfg := by
  have hcoh := (hreach.step hok hstep).interleaved.coherent
  refine ⟨h.interleaved.step (Terms.schedules_stable _) hadm hstep ⟨hsched, hended.endsOnce hcoh⟩
    fun _ => (hreach.spawned.step hreach hok hstep).1, hended, hadv⟩

/-- A step of a session. -/
theorem Scheduling.stepwise (hlibs : cfg.libs.NextIsLeast occurs) (h : σ.Scheduling cfg)
    (hreach : Reach cfg ConsumersOk σ) {a : Act} (ha : a.stepwise) (hok : σ.ConsumersOk a)
    (hstep : σ.step cfg a = some σ') : σ'.Scheduling cfg := by
  have hadm : a.Admitted (.schedules cfg.libs) cfg σ := by
    cases a with
    | start k at_ => exact schedules_admits hlibs hok
    | statement i pick => exact fun _ _ _ _ _ => trivial
    | _ => trivial
  have hcoh := h.interleaved.coherent
  have hcoh' := (hreach.step hok hstep).interleaved.coherent
  rcases stepwise_tables ha hstep with heq | ⟨i, k, won, ses, rfl, hi, heq⟩
  · refine h.of_tables hreach hok hadm hstep ?_ ?_ ?_
    all_goals rw [heq]
    · exact h.interleaved.inv.scheduled
    · exact h.ended
    · exact h.advanced
  · obtain ⟨hcons, hws⟩ := hreach.consumer hi
    have hc := h.interleaved.ends hi
    have hstamps := continues_stamps hc.kept.now.replays hws.now
    have hruns := continues_pending hc.kept.now.replays hws.now
    refine h.of_tables hreach hok hadm hstep ?_ ?_ ?_
    all_goals rw [heq] at hcoh' ⊢
    · exact (hc.kept.now.regular hcons hcoh h.interleaved.inv).scheduled
    · refine h.ended.continues hcoh hcoh' hruns hstamps.stays fun e' he' hterm => ?_
      obtain ⟨e, he, hs, -⟩ := hstamps.back e' he' hterm
      exact ⟨e, he, hs⟩
    · obtain ⟨hjobs, hold⟩ := step_forward hreach.interleaved hstep
      exact h.advanced.stamps hcoh' (heq ▸ hjobs) (heq ▸ hold) hstamps

/-- A transaction at once that is not the consumer's. -/
theorem Scheduling.atomic (h : σ.Scheduling cfg) (hreach : Reach cfg ConsumersOk σ) {k : Kind}
    (hk : k.consumes = false) {start : Int} {pick : Nat → Bool}
    (hok : σ.ConsumersOk (.atomic k start pick))
    (hstep : σ.step cfg (.atomic k start pick) = some σ') : σ'.Scheduling cfg := by
  have hcoh := h.interleaved.coherent
  obtain ⟨hpath, -⟩ := atomic_changes hstep hcoh hreach.spawned.live hok
  have hend := hpath.invariant (I := fun L => Coherent L.tables L.seq ∧ L.OnSchedule cfg.libs)
    (fun L L' hI hc => ⟨hc.coherent hI.1, hI.2.change hI.1 hc⟩)
    ⟨hcoh, h.ended, h.interleaved.inv.scheduled⟩
  refine h.of_tables hreach hok trivial hstep hend.2.scheduled hend.2.ended ?_
  intro e he hterm hdone
  rcases atomic_unstamped hk hstep e he with he | hnil
  · obtain ⟨hjobs, hruns⟩ := step_forward hreach.interleaved hstep
    exact (h.advanced e he hterm hdone).mono hjobs hruns
  · rw [RunEvent.unprocessed_of_unstamped hterm hnil] at hdone
    cases hdone

theorem Scheduling.steps (hlibs : cfg.libs.NextIsLeast occurs) {k : Kind} (hk : k.consumes = true)
    (h : σ.Scheduling cfg) (hreach : Reach cfg ConsumersOk σ)
    (hsteps : Steps cfg (fun _ a => a.within k) σ σ') :
    σ'.Scheduling cfg ∧ Reach cfg ConsumersOk σ' := by
  induction hsteps with
  | refl => exact ⟨h, hreach⟩
  | @step σ₁ σ₂ a _ hwithin hstep ih =>
    obtain ⟨h₁, hreach₁⟩ := ih
    have hok : σ₁.ConsumersOk a := by
      cases a with
      | start k' at_ => exact (show k' = k from hwithin) ▸ hk
      | atomic | crash => exact hwithin.elim
      | _ => trivial
    exact ⟨h₁.stepwise hlibs hreach₁ hwithin.stepwise hok hstep, hreach₁.step hok hstep⟩

/-- A closed session at the end may be forgotten. -/
theorem Scheduling.drop
    (h : Scheduling cfg { σ with sessions := σ.sessions ++ [none] }) : σ.Scheduling cfg := by
  have hget : ∀ {i : Nat} {o : Open}, σ.sessions[i]? = some (some o) →
      (σ.sessions ++ [none])[i]? = some (some o) := by
    intro i o hi
    rw [List.getElem?_append_left (List.getElem?_eq_some_iff.mp hi).1]
    exact hi
  obtain ⟨⟨hcoh, hinv, hworkers, hgood, hapart⟩, hended, hadv⟩ := h
  exact ⟨⟨hcoh, hinv, hworkers, fun i o ho => hgood i o (hget ho),
    fun i j a b hne ha hb => hapart i j a b hne (hget ha) (hget hb)⟩, hended, hadv⟩

theorem Reach.scheduling (hlibs : cfg.libs.NextIsLeast occurs) (h : Reach cfg ConsumersOk σ) :
    σ.Scheduling cfg := by
  induction h with
  | init =>
    refine ⟨.init ⟨⟨by simp, by simp, fun id before r after heq => ?_⟩, by simp, by simp⟩,
      ⟨by simp, by simp, by simp⟩, fun e he => by cases he⟩
    simp [Tables.jobRuns] at heq
  | @step σ σ' a hreach hok hstep ih =>
    cases a with
    | atomic k start pick =>
      cases hk : k.consumes with
      | false => exact ih.atomic hreach hk hok hstep
      | true => exact (ih.steps hlibs hk hreach (atomic_steps hstep)).1.drop
    | _ =>
      refine ih.stepwise hlibs hreach ?_ hok hstep
      trivial

end Sys

/-! ### The first run -/

/-- Every schedule-driven job has a run. -/
def Tables.Started (t : Tables) : Prop :=
  ∀ j ∈ t.jobs, j.triggerOnJobId = none → ∃ r ∈ t.runs, r.jobId = j.jobId

theorem Tables.Started.createEnds {t t' : Tables} (h : t.Started) {seq : Seq} {start : Int}
    {args : CreateArgs} {decision : Except Err (Job ⊕ CreatePlan)} {id : Nat}
    (hends : CreateEnds t seq start args decision id t') : t'.Started := by
  match decision with
  | .error e => exact hends.elim
  | .ok (.inl job) => exact hends.2 ▸ h
  | .ok (.inr plan) =>
    rw [hends.2]
    unfold Tables.withNew
    dsimp only
    split
    · next htrigger =>
      intro j hj hnone
      rcases List.mem_append.mp hj with hj | hj
      · exact h j hj hnone
      · -- a chained job waits for its trigger
        rw [List.mem_singleton.mp hj] at hnone
        change args.triggerOnJobId = none at hnone
        rw [hnone] at htrigger
        cases htrigger
    · intro j hj hnone
      rcases List.mem_append.mp hj with hj | hj
      · obtain ⟨r, hr, hid⟩ := h j hj hnone
        exact ⟨r, List.mem_append_left _ hr, hid⟩
      · rw [List.mem_singleton.mp hj]
        exact ⟨_, List.mem_append_right _ (List.mem_singleton_self _), rfl⟩

namespace Sys

variable {cfg : Config} {σ σ' : Sys}

/-- The other transactions create no jobs and remove no runs. -/
theorem started_commits {τ : Terms} {libs : Libs} {k : Kind} {t : Tables} {seq : Seq} {ses : Session}
    {won : Bool} (h : t.Started) (hc : Commits τ libs k t seq ses won) (hnil : ses.inserted = []) :
    (ses.view t).Started := by
  intro j' hj' hnone
  have hjobs := hc.kept.now.jobs
  rw [hnil, List.append_nil] at hjobs
  obtain ⟨j, hj, hs⟩ := pointwise_left hjobs hj'
  obtain ⟨r, hr, hid⟩ := h j hj (hs.triggerOnJobId ▸ hnone)
  obtain ⟨r', hr', hsr, -⟩ := hc.others.runs r hr
  exact ⟨r', hr', hsr.jobId.trans (hid.trans hs.jobId.symm)⟩

theorem Reach.started (h : Reach cfg ConsumersOk σ) : σ.tables.Started := by
  induction h with
  | init => exact fun j hj => by cases hj
  | @step σ σ' a hreach hok hstep ih =>
    rcases step_tables hreach.interleaved hstep with heq | ⟨k, seq, ses, won, hc, hk, heq⟩
    · exact heq ▸ ih
    rcases hc.inserted with hnil | ⟨now, args, row, rfl, -, -⟩
    · exact heq ▸ started_commits ih hc hnil
    -- a creation runs at once
    cases a with
    | atomic k start pick =>
      cases hk
      obtain ⟨-, ⟨seq', -, rfl⟩ | ⟨won', seq', ses', hrun, rfl⟩⟩ := step_atomic hstep
      · exact ih
      · have hsound := hreach.sound_db
        have hdecides : (createJob cfg.libs now args).wp (rowAccount Eq pick start) _ _
            ⟨σ.tables, σ.seq, none⟩ := wp_createJob hsound.coherent hsound.whole
        have hwp : ((Kind.create now args).prog cfg).wp (rowAccount Eq pick start) _
            (fun _ v' => v'.tables.Started) ⟨σ.tables, σ.seq, none⟩ :=
          wp_quiet (Program.wp_mono hdecides fun id v' hends => ih.createEnds hends)
        obtain ⟨v, hv, -, hpost⟩ := run_atomic eq_aging hsound.coherent.jobs hwp hrun
        exact hv ▸ hpost
    | commit i =>
      obtain ⟨o, ho, hkind⟩ : ∃ o, σ.sessions[i]? = some (some o) ∧ o.kind = .create now args := by
        simp only [Sys.commits, Option.map_eq_some_iff, Option.join_eq_some_iff] at hk
        obtain ⟨o, ho, hkind⟩ := hk
        exact ⟨o, ho, hkind⟩
      have hcons := (hreach.consumer ho).1
      rw [hkind] at hcons
      cases hcons
    | start | statement | abort | crash => cases hk

/-! ### The schedule of a job -/

/-- The runs of a recurring job are created in the order of their times, which are all different, and
each is due at the least occurrence of the cron expression that is past the run before it and not
before that run's end. -/
theorem recurring_ticks (hlibs : cfg.libs.NextIsLeast occurs) (h : Reach cfg ConsumersOk σ) {j : Job}
    (hj : j ∈ σ.tables.jobs) {cron : String} (hcron : j.cronExpr = some cron) :
    (σ.tables.jobRuns j.jobId).Pairwise (fun r s => r.scheduledAt < s.scheduledAt) ∧
      (σ.tables.jobRuns j.jobId).IsChain fun r s =>
        ∃ e ∈ σ.tables.events, e.eventType.terminal = true ∧ e.runId = r.runId ∧
          occurs cron j.zone s.scheduledAt ∧ e.occurredAt ≤ s.scheduledAt ∧
          ∀ x, e.occurredAt ≤ x → r.scheduledAt < x → x < s.scheduledAt → ¬occurs cron j.zone x := by
  have hsched := (h.scheduling hlibs).interleaved.inv.scheduled
  refine ⟨hsched.increasing hlibs hj hcron, (hsched.ticks j hj cron hcron).imp fun r s hrs => ?_⟩
  obtain ⟨e, he, hterm, hrun, hocc, -, hle, hleast⟩ := hrs.least hlibs
  exact ⟨e, he, hterm, hrun, hocc, hle, hleast⟩

/-- An active recurring job always has a next step: its runs but the last have ended, and the last
one executes, or its end waits for the consumer. -/
theorem recurring_never_stalls (hlibs : cfg.libs.NextIsLeast occurs) (h : Reach cfg ConsumersOk σ)
    {j : Job} (hj : j ∈ σ.tables.jobs) (hcron : j.cronExpr.isSome = true)
    (hactive : j.state = .active) : ∃ before last, σ.tables.jobRuns j.jobId = before ++ [last] ∧
      (∀ r ∈ before, r.status.terminal = true) ∧ (last.status.executing = true ∨
        ∃ e ∈ σ.tables.events, e.runId = last.runId ∧ e.unprocessed = true) := by
  obtain ⟨cron, hcron⟩ := Option.isSome_iff_exists.mp hcron
  obtain ⟨hint, hended, hadv⟩ := h.scheduling hlibs
  have hcoh := hint.coherent
  have hsched := hint.inv.scheduled
  -- a recurring job is schedule-driven, so it has a run
  have htrigger : j.triggerOnJobId = none := by
    rw [← Option.not_isSome_iff_eq_none]
    intro hsome
    rw [(hcoh.lifecycle j hj).chained hsome] at hcron
    cases hcron
  obtain ⟨r₀, hr₀, hid₀⟩ := h.started j hj htrigger
  have hmem₀ := Tables.mem_jobRuns.mpr ⟨hr₀, hid₀⟩
  rcases List.eq_nil_or_concat (σ.tables.jobRuns j.jobId) with hnil | ⟨before, last, hsplit⟩
  · rw [hnil] at hmem₀
    cases hmem₀
  rw [List.concat_eq_append] at hsplit
  refine ⟨before, last, hsplit, fun r hr => ?_, ?_⟩
  · obtain ⟨xs, ys, rfl⟩ := List.append_of_mem hr
    cases hterm : r.status.terminal with
    | true => rfl
    | false =>
      have hex : r.status.executing = true := by rw [RunStatus.executing_eq_not_terminal, hterm]; rfl
      have hend := hsched.last j.jobId xs r (ys ++ [last]) (by rw [hsplit]; simp) hex
      simp at hend
  · cases hex : last.status.executing with
    | true => exact .inl rfl
    | false =>
      refine .inr ?_
      obtain ⟨hlast, hlastJob⟩ : last ∈ σ.tables.runs ∧ last.jobId = j.jobId :=
        Tables.mem_jobRuns.mp (by rw [hsplit]; simp)
      have hterm : last.status.terminal = true := by
        rwa [RunStatus.executing_eq_not_terminal, Bool.not_eq_false'] at hex
      obtain ⟨e, he, hte, hrun⟩ := hended.recorded last hlast hterm
      refine ⟨e, he, hrun, ?_⟩
      rw [← Bool.not_eq_false]
      intro hdone
      obtain ⟨r, hr, hre, hrj⟩ := hcoh.event_run e he
      rw [hcoh.run_eq hr hlast (hre.trans hrun), hlastJob] at hrj
      -- a stamp would mean that the job is over, or that there is a later run
      rcases hadv e he hte hdone with ⟨i, hi, hid, hover⟩ | ⟨prev, hprev, s, hs, hpe, -, hsj, hlt⟩
      · rw [hcoh.job_eq hi hj (hid.trans hrj.symm), hcron, hactive] at hover
        rcases hover with hover | hover <;> cases hover
      · rw [hcoh.run_eq hprev hlast (hpe.trans hrun)] at hlt
        have hmem := Tables.mem_jobRuns.mpr ⟨hs, hsj.trans hrj.symm⟩
        have hpair := hsched.increasing hlibs hj hcron
        rw [hsplit] at hmem hpair
        rcases List.mem_append.mp hmem with hmem | hmem
        · have := (List.pairwise_append.mp hpair).2.2 s hmem last List.mem_cons_self
          omega
        · rw [List.mem_singleton.mp hmem] at hlt
          omega

theorem Config.minutely_nextIsLeast :
    Config.minutely.libs.NextIsLeast fun _ _ t => t % (60 * second) = 0 := by
  intro expr tz start next h
  simp only [Config.minutely, Option.some.injEq] at h
  simp only [second] at h ⊢
  exact ⟨by omega, by omega, fun t hgt hlt hocc => by omega⟩

/-- The second run of `raceRun` ends late, after two more minutes have passed. -/
def lateRun : List Act := raceRun ++
  [.at (120 * second) (.publish (120 * second) 10),
    .at (125 * second) (.claim (125 * second) 2 1),
    .at (250 * second) (.finish (250 * second) 2 1 .success)]

theorem lateRun_reach {σ : Sys} (h : runActs .minutely {} lateRun = some σ) :
    Reach .minutely ConsumersOk σ := by
  refine Reach.init.runActs (fun τ a ha => ?_) h
  simp only [lateRun, raceRun, List.mem_append, List.mem_cons, List.mem_replicate, List.not_mem_nil,
    or_false] at ha
  rcases ha with (((((ha | ⟨-, rfl⟩) | ⟨-, rfl⟩) | rfl) | ⟨-, rfl⟩) | rfl) | ha
  · rcases ha with rfl | rfl | rfl | rfl | rfl | rfl <;> trivial
  · trivial
  · trivial
  · trivial
  · trivial
  · trivial
  · rcases ha with rfl | rfl | rfl <;> trivial

/-- The ticks at 180 and 240 seconds are left out: the third run is due at 300. -/
theorem lateRun_ticks : ∃ σ σ', runActs .minutely {} lateRun = some σ ∧
    σ.step .minutely (.at (251 * second) (.poll (251 * second) 10)) = some σ' ∧
    (∀ j ∈ σ'.tables.jobs, (σ'.tables.jobRuns j.jobId).Pairwise fun r s =>
      r.scheduledAt < s.scheduledAt) ∧
    (σ'.tables.jobRuns 1).map (·.scheduledAt) = [0, 120 * second, 300 * second] := by
  have hsome : ((runActs .minutely {} lateRun).bind fun σ =>
      σ.step .minutely (.at (251 * second) (.poll (251 * second) 10))).isSome = true := by
    decide +kernel
  obtain ⟨σ', hσ'⟩ := Option.isSome_iff_exists.mp hsome
  obtain ⟨σ, hσ, hstep⟩ := Option.bind_eq_some_iff.mp hσ'
  have hreach : Reach .minutely ConsumersOk σ' :=
    (lateRun_reach hσ).step (a := .at (251 * second) (.poll (251 * second) 10)) trivial hstep
  have hrows : ((runActs .minutely {} lateRun).bind fun σ =>
      σ.step .minutely (.at (251 * second) (.poll (251 * second) 10))).map (fun σ =>
      ((σ.tables.jobRuns 1).map (·.scheduledAt),
        σ.tables.jobs.all fun j => j.cronExpr == some "* * * * *")) =
      some ([0, 120 * second, 300 * second], true) := by decide +kernel
  rw [hσ', Option.map_some, Option.some.injEq, Prod.mk.injEq, List.all_eq_true] at hrows
  refine ⟨σ, σ', hσ, hstep, fun j hj => ?_, hrows.1⟩
  exact (recurring_ticks Config.minutely_nextIsLeast hreach hj
    (by simpa using hrows.2 j hj)).1

/-- The second run has ended, and its end waits for the consumer. -/
theorem lateRun_waits : ∃ σ, runActs .minutely {} lateRun = some σ ∧
    ∀ j ∈ σ.tables.jobs, ∃ before last, σ.tables.jobRuns j.jobId = before ++ [last] ∧
      (∀ r ∈ before, r.status.terminal = true) ∧ (last.status.executing = true ∨
        ∃ e ∈ σ.tables.events, e.runId = last.runId ∧ e.unprocessed = true) := by
  have hsome : (runActs .minutely {} lateRun).isSome = true := by decide +kernel
  obtain ⟨σ, hσ⟩ := Option.isSome_iff_exists.mp hsome
  have hrows : (runActs .minutely {} lateRun).map (fun σ => σ.tables.jobs.all fun j =>
      j.cronExpr.isSome && j.state == .active) = some true := by decide +kernel
  rw [hσ, Option.map_some, Option.some.injEq, List.all_eq_true] at hrows
  refine ⟨σ, hσ, fun j hj => ?_⟩
  have hcols := hrows j hj
  simp only [Bool.and_eq_true, beq_iff_eq] at hcols
  exact recurring_never_stalls Config.minutely_nextIsLeast (lateRun_reach hσ) hj hcols.1 hcols.2

end Sys

end TaskScheduler
