import TaskScheduler.Domain.Ancestors
import TaskScheduler.Ledger.Atomic
import TaskScheduler.Lib.Interleave

/-! Transactions that interleave.  A session keeps its writes back until it commits, and other
transactions commit in the meantime.  `Others` is what they may do to the tables while the session
holds its locks, and `Valid` is what each write of a session must be so that it still makes sense at
the commit. -/

namespace TaskScheduler

open Lib

/-! ### What other transactions may do -/

/-- Locks are only added. -/
structure Held.le (a b : Held) : Prop where
  advisory : ∀ id ∈ a.advisory, id ∈ b.advisory
  jobs : ∀ id ∈ a.jobs, id ∈ b.jobs
  runs : ∀ id ∈ a.runs, id ∈ b.runs

theorem Held.le.refl (a : Held) : a.le a := ⟨fun _ h => h, fun _ h => h, fun _ h => h⟩

theorem Held.le.trans {a b c : Held} (h : a.le b) (h' : b.le c) : a.le c :=
  ⟨fun _ hid => h'.advisory _ (h.advisory _ hid), fun _ hid => h'.jobs _ (h.jobs _ hid),
    fun _ hid => h'.runs _ (h.runs _ hid)⟩

/-- Two versions of one event: only the cursor differs. -/
def RunEvent.SameEvent (e e' : RunEvent) : Prop := e' = { e with processedBy := e'.processedBy }

namespace RunEvent.SameEvent

variable {a b c : RunEvent}

theorem refl (e : RunEvent) : e.SameEvent e := rfl

theorem trans (h : a.SameEvent b) (h' : b.SameEvent c) : a.SameEvent c := by
  unfold RunEvent.SameEvent at *
  rw [h', h]

theorem symm (h : a.SameEvent b) : b.SameEvent a := by
  unfold RunEvent.SameEvent at *
  rw [h]

theorem eventId (h : a.SameEvent b) : b.eventId = a.eventId := by rw [h]

theorem runId (h : a.SameEvent b) : b.runId = a.runId := by rw [h]

theorem jobId (h : a.SameEvent b) : b.jobId = a.jobId := by rw [h]

theorem eventType (h : a.SameEvent b) : b.eventType = a.eventType := by rw [h]

theorem occurredAt (h : a.SameEvent b) : b.occurredAt = a.occurredAt := by rw [h]

end RunEvent.SameEvent

theorem JobRun.SameRun.trans {a b c : JobRun} (h : a.SameRun b) (h' : b.SameRun c) : a.SameRun c :=
  ⟨h'.runId.trans h.runId, h'.jobId.trans h.jobId, h'.userId.trans h.userId,
    h'.scheduledAt.trans h.scheduledAt, h'.waitForRunId.trans h.waitForRunId⟩

theorem Job.Since.jobId {c r : Job} (h : c.Since r) : r.jobId = c.jobId :=
  (since_aging.jobId h).symm

theorem Job.Since.userId {c r : Job} (h : c.Since r) : r.userId = c.userId := by
  rw [since_aging.sameDef h]

theorem Job.Since.triggerOnJobId {c r : Job} (h : c.Since r) :
    r.triggerOnJobId = c.triggerOnJobId := by
  rw [since_aging.sameDef h]

/-- What other transactions may do to the tables while a session holds `held`: rows stay, jobs move
along their lifecycle, and locked rows do not change; a job under the session's advisory lock gets
no run, and a run that it has locked gets no terminal event.  In a calm system, no run of such a job
starts to execute again after its end. -/
structure Others (calm : Prop) (held : Held) (t t' : Tables) : Prop where
  jobs : ∀ j ∈ t.jobs, ∃ j' ∈ t'.jobs, j.Since j' ∧ (j.jobId ∈ held.jobs → j' = j)
  held_jobs : ∀ j' ∈ t'.jobs, j'.jobId ∈ held.jobs → j' ∈ t.jobs
  runs : ∀ r ∈ t.runs, ∃ r' ∈ t'.runs, r.SameRun r' ∧ (r.runId ∈ held.runs → r' = r)
  held_runs : ∀ r' ∈ t'.runs, r'.runId ∈ held.runs → r' ∈ t.runs
  locked : ∀ r' ∈ t'.runs, r'.jobId ∈ held.advisory → ∃ r ∈ t.runs, r.SameRun r' ∧
    (calm → r'.status.executing = true → r.status.executing = true)
  events : ∀ e ∈ t.events, ∃ e' ∈ t'.events, e.SameEvent e'
  held_events : ∀ e' ∈ t'.events, e'.eventType.terminal = true → e'.runId ∈ held.runs →
    ∃ e ∈ t.events, e.SameEvent e'

namespace Others

variable {calm : Prop} {held held' : Held} {t t' t'' : Tables}

theorem refl (t : Tables) : Others calm held t t where
  jobs j hj := ⟨j, hj, .inl rfl, fun _ => rfl⟩
  held_jobs _ hj _ := hj
  runs r hr := ⟨r, hr, .refl r, fun _ => rfl⟩
  held_runs _ hr _ := hr
  locked r hr _ := ⟨r, hr, .refl r, fun _ => id⟩
  events e he := ⟨e, he, .refl e⟩
  held_events e he _ _ := ⟨e, he, .refl e⟩

theorem trans (h : Others calm held t t') (h' : Others calm held t' t'') : Others calm held t t'' where
  jobs j hj := by
    obtain ⟨j', hj', hs, heq⟩ := h.jobs j hj
    obtain ⟨j'', hj'', hs', heq'⟩ := h'.jobs j' hj'
    refine ⟨j'', hj'', since_aging.trans hs hs', fun hid => ?_⟩
    rw [heq' (hs.jobId ▸ hid), heq hid]
  held_jobs j hj hid := h.held_jobs j (h'.held_jobs j hj hid) hid
  runs r hr := by
    obtain ⟨r', hr', hs, heq⟩ := h.runs r hr
    obtain ⟨r'', hr'', hs', heq'⟩ := h'.runs r' hr'
    refine ⟨r'', hr'', hs.trans hs', fun hid => ?_⟩
    rw [heq' (hs.runId ▸ hid), heq hid]
  held_runs r hr hid := h.held_runs r (h'.held_runs r hr hid) hid
  locked r hr hid := by
    obtain ⟨r', hr', hs', hc'⟩ := h'.locked r hr hid
    obtain ⟨r'', hr'', hs, hc⟩ := h.locked r' hr' (hs'.jobId ▸ hid)
    exact ⟨r'', hr'', hs.trans hs', fun hcalm hex => hc hcalm (hc' hcalm hex)⟩
  events e he := by
    obtain ⟨e', he', hs⟩ := h.events e he
    obtain ⟨e'', he'', hs'⟩ := h'.events e' he'
    exact ⟨e'', he'', hs.trans hs'⟩
  held_events e he ht hid := by
    obtain ⟨e', he', hs'⟩ := h'.held_events e he ht hid
    obtain ⟨e'', he'', hs⟩ := h.held_events e' he' (hs'.eventType ▸ ht) (hs'.runId ▸ hid)
    exact ⟨e'', he'', hs.trans hs'⟩

theorem mono (h : Others calm held' t t') (hle : held.le held') : Others calm held t t' where
  jobs j hj := by
    obtain ⟨j', hj', hs, heq⟩ := h.jobs j hj
    exact ⟨j', hj', hs, fun hid => heq (hle.jobs _ hid)⟩
  held_jobs j hj hid := h.held_jobs j hj (hle.jobs _ hid)
  runs r hr := by
    obtain ⟨r', hr', hs, heq⟩ := h.runs r hr
    exact ⟨r', hr', hs, fun hid => heq (hle.runs _ hid)⟩
  held_runs r hr hid := h.held_runs r hr (hle.runs _ hid)
  locked r hr hid := h.locked r hr (hle.advisory _ hid)
  events := h.events
  held_events e he ht hid := h.held_events e he ht (hle.runs _ hid)

/-- The jobs keep their triggers. -/
theorem chain (h : Others calm held t t') : ∀ j ∈ t.jobs, ∃ j' ∈ t'.jobs,
    j'.jobId = j.jobId ∧ j'.triggerOnJobId = j.triggerOnJobId := by
  intro j hj
  obtain ⟨j', hj', hs, -⟩ := h.jobs j hj
  exact ⟨j', hj', hs.jobId, hs.triggerOnJobId⟩

/-- A job that the session has locked and that executes nothing stays so, in a calm system. -/
theorem idle (h : Others calm held t t') (hcalm : calm) {id : Nat} (hid : id ∈ held.advisory)
    (hidle : ¬t.Executing id) : ¬t'.Executing id := by
  rintro ⟨r', hr', rfl, hex⟩
  obtain ⟨r, hr, hs, hc⟩ := h.locked r' hr' hid
  exact hidle ⟨r, hr, hs.jobId.symm, hc hcalm hex⟩

end Others

/-! ### The writes of a session -/

namespace Kind

def creates : Kind → Bool
  | .create _ _ => true
  | _ => false

/-- The transaction may write the run whatever its status is. -/
def writesBlindly : Kind → Nat → Prop
  | .finish _ runId _ _, id => id = runId
  | _, _ => False

end Kind

/-- Where a transaction stands: the committed tables, the sequences, and its session. -/
structure Site where
  committed : Tables
  seq : Seq
  ses : Session

def Site.view (g : Site) : Tables := g.ses.view g.committed

/-- What is asked of a system beyond the shape of its writes: `calm`, that no run executes again
after its end; `final`, that a run ends once; `inv`, an invariant of the committed tables; `cont`,
what must hold where the consumer stamps an event; `cond`, what holds where a statement is issued. -/
structure Terms where
  calm : Prop
  final : Prop
  inv : Tables → Prop
  cont : Tables → RunEvent → Prop
  cond : Stmt → Site → Prop

/-- Why a session inserts a run: it has created the job, or the job that it has loaded continues
after one of its runs, or after a run of the trigger that it has loaded too. -/
inductive Source (libs : Libs) (k : Kind) (loaded : List Job) (t : Tables) (row : JobRun) : Prop
  | initial (hk : k.creates = true) (hwait : row.waitForRunId = none)
      (hfirst : ∀ x ∈ t.runs, x.jobId ≠ row.jobId)
  | successor {c : Job} {cron : String} {e : RunEvent} {prev : JobRun} (hc : c ∈ loaded)
      (hid : c.jobId = row.jobId) (hlive : c.cancelledAt = none) (hcron : c.cronExpr = some cron)
      (hwait : row.waitForRunId = none) (he : e ∈ t.events) (hterminal : e.eventType.terminal = true)
      (hprev : prev ∈ t.runs) (hrun : prev.runId = e.runId) (hjob : prev.jobId = c.jobId)
      (hnext : nextAfter libs cron c.zone (successorAnchor prev e.occurredAt) =
        some row.scheduledAt)
  | upstream {c p : Job} {e : RunEvent} (hc : c ∈ loaded) (hid : c.jobId = row.jobId)
      (hactive : c.state = .active) (htrigger : c.triggerOnJobId = some e.jobId) (hp : p ∈ loaded)
      (hpid : p.jobId = e.jobId) (hlive : p.state ≠ .cancelled) (he : e ∈ t.events)
      (hterminal : e.eventType.terminal = true) (hwait : row.waitForRunId = some e.runId)
      (hat : row.scheduledAt = e.occurredAt)

/-- A run that a session may insert. -/
structure NewRun (τ : Terms) (libs : Libs) (k : Kind) (held : Held) (loaded : List Job) (t : Tables)
    (row : JobRun) : Prop where
  status : row.status = .pending
  job : ∃ j ∈ t.jobs, j.jobId = row.jobId ∧ j.userId = row.userId
  locked : row.jobId ∈ held.advisory
  idle : τ.calm → ¬t.Executing row.jobId
  index : ∀ x ∈ t.runs, x.jobId = row.jobId →
    (row.waitForRunId.isSome = true → x.waitForRunId ≠ row.waitForRunId) ∧
      (row.waitForRunId = none → x.waitForRunId = none → x.scheduledAt ≠ row.scheduledAt)
  source : Source libs k loaded t row

/-- A write of a session of kind `k` that holds `held` and has loaded `loaded`, where it sees `t`. -/
def Valid (τ : Terms) (libs : Libs) (k : Kind) (held : Held) (loaded : List Job) (t : Tables) :
    Write → Prop
  | .insertJob row => k.creates = true ∧ row.state = .active ∧ row.Lifecycle ∧
    ∀ p, row.triggerOnJobId = some p →
      p < row.jobId ∧ (∃ i ∈ t.jobs, i.jobId = p ∧ i.userId = row.userId) ∧
        ∃ n < maxChainDepth, Chained t.jobs n p
  | .updateJobs ids set => k.creates = false ∧ (∀ id ∈ ids, id ∈ held.jobs) ∧
    (∃ now, set = Job.settle now ∨ set = Job.cancel now) ∧
    ∀ j ∈ t.jobs, j.jobId ∈ ids → j.state = .active ∧ (set j).Lifecycle
  | .insertRun row => NewRun τ libs k held loaded t row
  | .updateRuns ids set => (∀ r : JobRun, r.SameRun (set r)) ∧ (∀ id ∈ ids, id ∈ held.runs) ∧
    ∀ r ∈ t.runs, r.runId ∈ ids →
      ((set r).status.executing = true → r.status.executing = true ∨ k.writesBlindly r.runId) ∧
      (τ.final → r.status.cancellable = true)
  | .insertEvent row => (∃ r ∈ t.runs, r.runId = row.runId ∧ r.jobId = row.jobId) ∧
    (row.eventType.terminal = true → row.runId ∈ held.runs ∧
      (τ.final → (∀ r ∈ t.runs, r.runId = row.runId → r.status.terminal = true) ∧
        ∀ e ∈ t.events, e.eventType.terminal = true → e.runId ≠ row.runId))
  | .updateEvents ids set => ∃ e by_, (∀ id ∈ ids, id = e.eventId) ∧
    (set = fun x => { x with processedBy := by_ }) ∧ τ.cont t e

theorem sameDef_set {set : Job → Job} (h : ∃ now, set = Job.settle now ∨ set = Job.cancel now)
    (j : Job) : (set j).jobId = j.jobId ∧ (set j).triggerOnJobId = j.triggerOnJobId ∧
      (set j).userId = j.userId := by
  obtain ⟨now, rfl | rfl⟩ := h <;> exact ⟨rfl, rfl, rfl⟩

/-- Both sides of an `Others` may make the same write. -/
theorem Others.apply {τ : Terms} {libs : Libs} {k : Kind} {held : Held} {loaded : List Job}
    {t t' : Tables} (h : Others τ.calm held t t') {w : Write}
    (hw : Valid τ libs k held loaded t w) : Others τ.calm held (w.apply t) (w.apply t') := by
  cases w with
  | insertJob row =>
    refine { h with jobs := fun j hj => ?_, held_jobs := fun j hj hid => ?_ }
    · rcases List.mem_append.mp hj with hj | hj
      · obtain ⟨j', hj', hrest⟩ := h.jobs j hj
        exact ⟨j', List.mem_append_left _ hj', hrest⟩
      · exact ⟨j, List.mem_append_right _ hj, .inl rfl, fun _ => rfl⟩
    · rcases List.mem_append.mp hj with hj | hj
      · exact List.mem_append_left _ (h.held_jobs j hj hid)
      · exact List.mem_append_right _ hj
  | updateJobs ids set =>
    obtain ⟨-, hheld, hset, -⟩ := hw
    have hkey := fun j => (sameDef_set hset j).1
    refine { h with jobs := fun j hj => ?_, held_jobs := fun j hj hid => ?_ }
    · obtain ⟨i, hi, rfl⟩ := List.mem_map.mp hj
      obtain ⟨i', hi', hs, heq⟩ := h.jobs i hi
      refine ⟨_, List.mem_map.mpr ⟨i', hi', rfl⟩, ?_⟩
      by_cases hin : i.jobId ∈ ids
      · rw [heq (hheld _ hin), if_pos hin]
        exact ⟨.inl rfl, fun _ => rfl⟩
      · rw [if_neg hin, if_neg (hs.jobId ▸ hin)]
        exact ⟨hs, heq⟩
    · obtain ⟨i, hi, rfl⟩ := List.mem_map.mp hj
      have hii : i.jobId ∈ held.jobs := by
        split at hid
        · exact hkey i ▸ hid
        · exact hid
      exact List.mem_map.mpr ⟨i, h.held_jobs i hi hii, rfl⟩
  | insertRun row =>
    refine { h with runs := fun r hr => ?_, held_runs := fun r hr hid => ?_,
                    locked := fun r hr hid => ?_ }
    · rcases List.mem_append.mp hr with hr | hr
      · obtain ⟨r', hr', hrest⟩ := h.runs r hr
        exact ⟨r', List.mem_append_left _ hr', hrest⟩
      · exact ⟨r, List.mem_append_right _ hr, .refl r, fun _ => rfl⟩
    · rcases List.mem_append.mp hr with hr | hr
      · exact List.mem_append_left _ (h.held_runs r hr hid)
      · exact List.mem_append_right _ hr
    · rcases List.mem_append.mp hr with hr | hr
      · obtain ⟨r', hr', hrest⟩ := h.locked r hr hid
        exact ⟨r', List.mem_append_left _ hr', hrest⟩
      · exact ⟨r, List.mem_append_right _ hr, .refl r, fun _ => id⟩
  | updateRuns ids set =>
    obtain ⟨hset, hheld, -⟩ := hw
    refine { h with runs := fun r hr => ?_, held_runs := fun r hr hid => ?_,
                    locked := fun r hr hid => ?_ }
    · obtain ⟨x, hx, rfl⟩ := List.mem_map.mp hr
      obtain ⟨x', hx', hs, heq⟩ := h.runs x hx
      refine ⟨_, List.mem_map.mpr ⟨x', hx', rfl⟩, ?_⟩
      by_cases hin : x.runId ∈ ids
      · rw [heq (hheld _ hin), if_pos hin]
        exact ⟨.refl _, fun _ => rfl⟩
      · rw [if_neg hin, if_neg (hs.runId ▸ hin)]
        exact ⟨hs, heq⟩
    · obtain ⟨x, hx, rfl⟩ := List.mem_map.mp hr
      have hxi : x.runId ∈ held.runs := by
        split at hid
        · exact (hset x).runId ▸ hid
        · exact hid
      exact List.mem_map.mpr ⟨x, h.held_runs x hx hxi, rfl⟩
    · obtain ⟨x, hx, rfl⟩ := List.mem_map.mp hr
      by_cases hin : x.runId ∈ ids
      · -- a row that the session updates is locked, so it is the same on both sides
        exact ⟨_, List.mem_map.mpr ⟨x, h.held_runs x hx (hheld _ hin), rfl⟩, .refl _, fun _ => id⟩
      · rw [if_neg hin] at hid ⊢
        obtain ⟨y, hy, hs, hc⟩ := h.locked x hx hid
        refine ⟨y, List.mem_map.mpr ⟨y, hy, if_neg (hs.runId ▸ hin)⟩, hs, hc⟩
  | insertEvent row =>
    refine { h with events := fun e he => ?_, held_events := fun e he ht hid => ?_ }
    · rcases List.mem_append.mp he with he | he
      · obtain ⟨e', he', hrest⟩ := h.events e he
        exact ⟨e', List.mem_append_left _ he', hrest⟩
      · exact ⟨e, List.mem_append_right _ he, .refl e⟩
    · rcases List.mem_append.mp he with he | he
      · obtain ⟨e', he', hrest⟩ := h.held_events e he ht hid
        exact ⟨e', List.mem_append_left _ he', hrest⟩
      · exact ⟨e, List.mem_append_right _ he, .refl e⟩
  | updateEvents ids set =>
    obtain ⟨_, by_, -, rfl, -⟩ := hw
    have hself : ∀ e : RunEvent,
        e.SameEvent (if e.eventId ∈ ids then { e with processedBy := by_ } else e) := by
      intro e
      split <;> rfl
    refine { h with events := fun e he => ?_, held_events := fun e he ht hid => ?_ }
    · obtain ⟨x, hx, rfl⟩ := List.mem_map.mp he
      obtain ⟨x', hx', hs⟩ := h.events x hx
      exact ⟨_, List.mem_map.mpr ⟨x', hx', rfl⟩, (hself x).symm.trans (hs.trans (hself x'))⟩
    · obtain ⟨x, hx, rfl⟩ := List.mem_map.mp he
      have hs := hself x
      obtain ⟨x', hx', hs'⟩ := h.held_events x hx (hs.eventType ▸ ht) (hs.runId ▸ hid)
      exact ⟨_, List.mem_map.mpr ⟨x', hx', rfl⟩, (hself x').symm.trans (hs'.trans hs)⟩

namespace Valid

variable {τ : Terms} {libs : Libs} {k : Kind} {held held' : Held} {loaded loaded' : List Job}
  {t t' : Tables} {w : Write}

/-- A valid write stays valid while other transactions commit. -/
theorem stable (h : Valid τ libs k held loaded t w)
    (hcont : ∀ held t t' e, Others τ.calm held t t' → τ.cont t e → τ.cont t' e)
    (ho : Others τ.calm held t t') : Valid τ libs k held loaded t' w := by
  have hjob : ∀ {id u}, (∃ j ∈ t.jobs, j.jobId = id ∧ j.userId = u) →
      ∃ j ∈ t'.jobs, j.jobId = id ∧ j.userId = u := by
    rintro id u ⟨j, hj, rfl, rfl⟩
    obtain ⟨j', hj', hs, -⟩ := ho.jobs j hj
    exact ⟨j', hj', hs.jobId, hs.userId⟩
  cases w with
  | insertJob row =>
    refine ⟨h.1, h.2.1, h.2.2.1, fun p hp => ?_⟩
    obtain ⟨hlt, hparent, n, hn, hchain⟩ := h.2.2.2 p hp
    exact ⟨hlt, hjob hparent, n, hn, hchain.mono ho.chain⟩
  | updateJobs ids set =>
    exact ⟨h.1, h.2.1, h.2.2.1, fun j hj hid => h.2.2.2 j (ho.held_jobs j hj (h.2.1 _ hid)) hid⟩
  | insertRun row =>
    obtain ⟨hstatus, hj, hlocked, hidle, hindex, hsource⟩ := h
    refine ⟨hstatus, hjob hj, hlocked, fun hcalm => ho.idle hcalm hlocked (hidle hcalm), ?_, ?_⟩
    · intro x' hx' hid
      obtain ⟨x, hx, hs, -⟩ := ho.locked x' hx' (hid ▸ hlocked)
      rw [hs.waitForRunId, hs.scheduledAt]
      exact hindex x hx (hs.jobId.symm.trans hid)
    · cases hsource with
      | initial hk hwait hfirst =>
        refine .initial hk hwait fun x' hx' hid => ?_
        obtain ⟨x, hx, hs, -⟩ := ho.locked x' hx' (hid ▸ hlocked)
        exact hfirst x hx (hs.jobId.symm.trans hid)
      | @successor c cron e prev hc hid hlive hcron hwait he hterminal hprev hrun hjob hnext =>
        obtain ⟨e', he', hse⟩ := ho.events e he
        obtain ⟨prev', hprev', hsp, -⟩ := ho.runs prev hprev
        refine .successor hc hid hlive hcron hwait he' (hse.eventType ▸ hterminal) hprev'
          (by rw [hsp.runId, hse.runId, hrun]) (hsp.jobId.trans hjob) ?_
        rwa [successorAnchor, hsp.scheduledAt, hse.occurredAt]
      | @upstream c p e hc hid hactive htrigger hp hpid hlive he hterminal hwait hat =>
        obtain ⟨e', he', hse⟩ := ho.events e he
        exact .upstream hc hid hactive (hse.jobId ▸ htrigger) hp (hse.jobId ▸ hpid) hlive he'
          (hse.eventType ▸ hterminal) (hse.runId ▸ hwait) (hat.trans hse.occurredAt.symm)
  | updateRuns ids set =>
    exact ⟨h.1, h.2.1, fun r hr hid => h.2.2 r (ho.held_runs r hr (h.2.1 _ hid)) hid⟩
  | insertEvent row =>
    refine ⟨?_, fun ht => ⟨(h.2 ht).1, fun hf => ⟨fun r hr hid => ?_, fun e' he' ht' heq => ?_⟩⟩⟩
    · obtain ⟨⟨r, hr, hid, hj⟩, -⟩ := h
      obtain ⟨r', hr', hs, -⟩ := ho.runs r hr
      exact ⟨r', hr', hs.runId.trans hid, hs.jobId.trans hj⟩
    · exact ((h.2 ht).2 hf).1 r (ho.held_runs r hr (hid ▸ (h.2 ht).1)) hid
    · obtain ⟨e, he, hs⟩ := ho.held_events e' he' ht' (heq ▸ (h.2 ht).1)
      exact ((h.2 ht).2 hf).2 e he (hs.eventType ▸ ht') (hs.runId.symm.trans heq)
  | updateEvents ids set =>
    obtain ⟨e, by_, hids, hset, hc⟩ := h
    exact ⟨e, by_, hids, hset, hcont held t t' e ho hc⟩

/-- More locks and more entities do not hurt. -/
theorem mono (h : Valid τ libs k held loaded t w) (hle : held.le held')
    (hloaded : ∀ c ∈ loaded, c ∈ loaded') : Valid τ libs k held' loaded' t w := by
  cases w with
  | insertJob row => exact h
  | updateJobs ids set => exact ⟨h.1, fun id hid => hle.jobs _ (h.2.1 id hid), h.2.2⟩
  | insertRun row =>
    obtain ⟨hstatus, hj, hlocked, hidle, hindex, hsource⟩ := h
    refine ⟨hstatus, hj, hle.advisory _ hlocked, hidle, hindex, ?_⟩
    cases hsource with
    | initial hk hwait hfirst => exact .initial hk hwait hfirst
    | successor hc hid hlive hcron hwait he hterminal hprev hrun hjob hnext =>
      exact .successor (hloaded _ hc) hid hlive hcron hwait he hterminal hprev hrun hjob hnext
    | upstream hc hid hactive htrigger hp hpid hlive he hterminal hwait hat =>
      exact .upstream (hloaded _ hc) hid hactive htrigger (hloaded _ hp) hpid hlive he hterminal hwait
        hat
  | updateRuns ids set => exact ⟨h.1, fun id hid => hle.runs _ (h.2.1 id hid), h.2.2⟩
  | insertEvent row => exact ⟨h.1, fun ht => ⟨hle.runs _ (h.2 ht).1, (h.2 ht).2⟩⟩
  | updateEvents ids set => exact h

end Valid

/-! ### References -/

/-- The part of coherence that does not speak of keys. -/
structure Linked (t : Tables) : Prop where
  lifecycle : ∀ j ∈ t.jobs, j.Lifecycle
  trigger : ∀ j ∈ t.jobs, ∀ p, j.triggerOnJobId = some p → p < j.jobId ∧ ∃ i ∈ t.jobs, i.jobId = p
  run_job : ∀ r ∈ t.runs, ∃ j ∈ t.jobs, j.jobId = r.jobId
  event_run : ∀ e ∈ t.events, ∃ r ∈ t.runs, r.runId = e.runId ∧ r.jobId = e.jobId

theorem Coherent.linked {t : Tables} {seq : Seq} (h : Coherent t seq) : Linked t :=
  ⟨h.lifecycle, h.trigger, h.run_job, h.event_run⟩

theorem Linked.apply {τ : Terms} {libs : Libs} {k : Kind} {held : Held} {loaded : List Job}
    {t : Tables} (h : Linked t) {w : Write} (hw : Valid τ libs k held loaded t w) :
    Linked (w.apply t) := by
  cases w with
  | insertJob row =>
    obtain ⟨-, -, hlife, hparent⟩ := hw
    refine { h with lifecycle := fun j hj => ?_, trigger := fun j hj p hp => ?_,
                    run_job := fun r hr => ?_ }
    · rcases List.mem_append.mp hj with hj | hj
      · exact h.lifecycle j hj
      · exact List.mem_singleton.mp hj ▸ hlife
    · have hold : p < j.jobId ∧ ∃ i ∈ t.jobs, i.jobId = p := by
        rcases List.mem_append.mp hj with hj | hj
        · exact h.trigger j hj p hp
        · rw [List.mem_singleton.mp hj] at hp ⊢
          obtain ⟨hlt, ⟨i, hi, hid, -⟩, -⟩ := hparent p hp
          exact ⟨hlt, i, hi, hid⟩
      obtain ⟨hlt, i, hi, hid⟩ := hold
      exact ⟨hlt, i, List.mem_append_left _ hi, hid⟩
    · obtain ⟨j, hj, hid⟩ := h.run_job r hr
      exact ⟨j, List.mem_append_left _ hj, hid⟩
  | updateJobs ids set =>
    obtain ⟨-, -, hset, hrows⟩ := hw
    have hcols : ∀ j : Job, (if j.jobId ∈ ids then set j else j).jobId = j.jobId ∧
        (if j.jobId ∈ ids then set j else j).triggerOnJobId = j.triggerOnJobId := by
      intro j
      split
      · exact ⟨(sameDef_set hset j).1, (sameDef_set hset j).2.1⟩
      · exact ⟨rfl, rfl⟩
    have hjob : ∀ {id}, (∃ j ∈ t.jobs, j.jobId = id) →
        ∃ j ∈ ((Write.updateJobs ids set).apply t).jobs, j.jobId = id := by
      rintro id ⟨j, hj, rfl⟩
      exact ⟨_, List.mem_map.mpr ⟨j, hj, rfl⟩, (hcols j).1⟩
    refine { h with lifecycle := fun j hj => ?_, trigger := fun j hj p hp => ?_,
                    run_job := fun r hr => hjob (h.run_job r hr) }
    · obtain ⟨i, hi, rfl⟩ := List.mem_map.mp hj
      split
      · next hin => exact (hrows i hi hin).2
      · exact h.lifecycle i hi
    · obtain ⟨i, hi, rfl⟩ := List.mem_map.mp hj
      rw [(hcols i).2] at hp
      rw [(hcols i).1]
      exact ⟨(h.trigger i hi p hp).1, hjob (h.trigger i hi p hp).2⟩
  | insertRun row =>
    refine { h with run_job := fun r hr => ?_, event_run := fun e he => ?_ }
    · rcases List.mem_append.mp hr with hr | hr
      · exact h.run_job r hr
      · obtain ⟨j, hj, hid, -⟩ := hw.job
        exact ⟨j, hj, List.mem_singleton.mp hr ▸ hid⟩
    · obtain ⟨r, hr, hid⟩ := h.event_run e he
      exact ⟨r, List.mem_append_left _ hr, hid⟩
  | updateRuns ids set =>
    obtain ⟨hset, -, -⟩ := hw
    have hcols : ∀ r : JobRun, r.SameRun (if r.runId ∈ ids then set r else r) := by
      intro r
      split
      · exact hset r
      · exact .refl r
    refine { h with run_job := fun r hr => ?_, event_run := fun e he => ?_ }
    · obtain ⟨x, hx, rfl⟩ := List.mem_map.mp hr
      obtain ⟨j, hj, hid⟩ := h.run_job x hx
      exact ⟨j, hj, hid.trans (hcols x).jobId.symm⟩
    · obtain ⟨r, hr, hid, hj⟩ := h.event_run e he
      exact ⟨_, List.mem_map.mpr ⟨r, hr, rfl⟩, (hcols r).runId.trans hid, (hcols r).jobId.trans hj⟩
  | insertEvent row =>
    refine { h with event_run := fun e he => ?_ }
    rcases List.mem_append.mp he with he | he
    · exact h.event_run e he
    · exact List.mem_singleton.mp he ▸ hw.1
  | updateEvents ids set =>
    obtain ⟨_, by_, -, rfl, -⟩ := hw
    refine { h with event_run := fun e he => ?_ }
    obtain ⟨x, hx, rfl⟩ := List.mem_map.mp he
    obtain ⟨r, hr, hrest⟩ := h.event_run x hx
    refine ⟨r, hr, ?_⟩
    split <;> exact hrest

end TaskScheduler
