import TaskScheduler.Ledger.Settle

/-! The continuation consumer is a path of changes: the creation of runs, the body for one event,
and a batch of events. -/

namespace TaskScheduler

open Lib

/-! ### The creation of a run -/

/-- The view once `_spawn_run` has created a run. -/
def View.spawn (v : View) (start : Int) (row : JobRun) : View :=
  (((v.write (.insertRun (storedRun v.seq start row))).nextRun).write
    (.insertEvent (storedEvent v.seq start
      (.new v.seq.runs row.jobId .created none (some row.status) none)))).nextEvent

section Spawn

variable {older : Job → Job → Prop} {pick : Nat → Bool} {start runAt : Int}
  {E : Err → View → Prop} {v : View} {job : Job} {status : RunStatus} {wait : Option Nat}

theorem wp_spawnRun {Q : Except SpawnError Nat → View → Prop}
    (busy : v.tables.Executing job.jobId → Q (.error .concurrency) v)
    (clash : ¬v.tables.Executing job.jobId →
      v.tables.runs.any (storedRun v.seq start (.new job runAt status wait)).clashes = true →
      Q (.error .integrity) v.nextRun)
    (new : ¬v.tables.Executing job.jobId →
      v.tables.runs.any (storedRun v.seq start (.new job runAt status wait)).clashes = false →
      Q (.ok v.seq.runs) (v.spawn start (.new job runAt status wait))) :
    (spawnRun job runAt status wait).wp (rowAccount older pick start) E Q v := by
  unfold spawnRun
  simp only [acquireJobLock, Program.wp_bind, wp_advisoryLock]
  refine wp_hasExecutingRun fun b hb => ?_
  cases b with
  | true => exact busy (hb.mp rfl)
  | false =>
    have hidle : ¬v.tables.Executing job.jobId := fun h => absurd (hb.mpr h) (by simp)
    simp only [Bool.false_eq_true, if_false, Program.wp_bind]
    rw [wp_insertRun]
    refine ⟨clash hidle, fun hc => ?_⟩
    simp only [Program.wp_bind, wp_insertEvent, Program.pure_eq, Program.wp_ret]
    exact new hidle hc

/-- The ends of `_spawn_run` in a savepoint. -/
inductive Spawned (start : Int) (v : View) (row : JobRun) : Except SpawnError Nat → View → Prop
  | busy (h : v.tables.Executing row.jobId) :
    Spawned start v row (.error .concurrency) { v with saved := none }
  | clash (hidle : ¬v.tables.Executing row.jobId)
      (h : v.tables.runs.any (storedRun v.seq start row).clashes = true) :
    Spawned start v row (.error .integrity) { v.nextRun with saved := none }
  | new (hidle : ¬v.tables.Executing row.jobId)
      (h : v.tables.runs.any (storedRun v.seq start row).clashes = false) :
    Spawned start v row (.ok v.seq.runs) { v.spawn start row with saved := none }

theorem wp_beginNested_spawnRun {Q : Except SpawnError Nat → View → Prop}
    (h : ∀ res v', Spawned start v (.new job runAt status wait) res v' → Q res v') :
    (beginNested (spawnRun job runAt status wait)).wp (rowAccount older pick start) E Q v := by
  unfold beginNested
  simp only [Program.wp_bind, wp_savepoint]
  refine wp_spawnRun (fun hb => ?_) (fun hidle hc => ?_) fun hidle hc => ?_
  · simp only [Program.wp_bind, wp_rollbackTo, Program.pure_eq, Program.wp_ret]
    exact ⟨by simp, h _ _ (.busy hb)⟩
  · simp only [Program.wp_bind, wp_rollbackTo, Program.pure_eq, Program.wp_ret]
    exact ⟨by simp [View.nextRun], h _ _ (.clash hidle hc)⟩
  · simp only [Program.wp_bind, wp_release, Program.pure_eq, Program.wp_ret]
    exact h _ _ (.new hidle hc)

/-- A spawn leaves the jobs alone. -/
theorem Spawned.jobs {row : JobRun} {res : Except SpawnError Nat} {v' : View}
    (h : Spawned start v row res v') : v'.tables.jobs = v.tables.jobs := by
  cases h <;> rfl

/-- A spawn with a cause is a path of changes. -/
theorem Spawned.changes {m : Mode} {libs : Libs} {L₀ : Ledger} {due spent : Nat → Prop}
    {entity : Job} {res : Except SpawnError Nat} {v' : View}
    (h : Spawned start v (.new entity runAt .pending wait) res v')
    (hpath : Changes m libs L₀ (v.ledger due spent)) (hjob : job ∈ v.tables.jobs)
    (hsame : entity.jobId = job.jobId) (hactive : job.state = .active)
    (hcause : Cause m libs (v.ledger due spent) job runAt wait) :
    Changes m libs L₀ (v'.ledger due spent) := by
  have hid : (JobRun.new entity runAt .pending wait).jobId = job.jobId := hsame
  cases h with
  | busy h => exact hpath
  | clash hidle h => exact hpath.tail (.burn ⟨le_rfl, Nat.le_succ _, le_rfl⟩)
  | new hidle h =>
    rw [hid] at hidle
    have := hpath.tail (.spawn hjob hsame hactive hidle h hcause)
    rwa [← hsame] at this

end Spawn

/-! ### The body for one event -/

/-- The entities of a consumer are at most behind its own settles. -/
theorem settledTo_aging : Aging Job.SettledTo where
  refl j := .inl rfl
  trans h h' := h.trans h'
  sameDef h := by
    rcases h with rfl | ⟨-, now, rfl⟩ <;> rfl
  state h := by
    rcases h with rfl | ⟨hs, -⟩
    · exact .inl rfl
    · exact .inr hs

theorem settledTo_settle (now : Int) (j : Job) (h : j.state = .active) :
    Job.SettledTo j (j.settle now) :=
  .inr ⟨h, now, rfl⟩

theorem Job.SettledTo.cancelledAt {c r : Job} (h : c.SettledTo r) :
    c.cancelledAt = r.cancelledAt := by
  rcases h with rfl | ⟨-, now, rfl⟩ <;> rfl

theorem Job.SettledTo.cancelled_iff {c r : Job} (h : c.SettledTo r) :
    c.state = .cancelled ↔ r.state = .cancelled := by
  rcases h with rfl | ⟨hs, now, rfl⟩
  · rfl
  · simp [Job.settle, hs]

/-- Entities for rows that are active are the rows. -/
theorem forall₂_settledTo_eq {cs rs : List Job} (h : List.Forall₂ Job.SettledTo cs rs)
    (hrs : ∀ r ∈ rs, r.state = .active) : cs = rs := by
  induction h with
  | nil => rfl
  | cons hcr _ ih =>
    rw [ih fun r hr => hrs r (List.mem_cons_of_mem _ hr)]
    rcases hcr with rfl | ⟨-, now, rfl⟩
    · rfl
    · cases hrs _ List.mem_cons_self

/-- The view with a new event. -/
def View.log (v : View) (start : Int) (row : RunEvent) : View :=
  (v.write (.insertEvent (storedEvent v.seq start row))).nextEvent

/-- What part (a) of the body does, for the entity `c` of the event's job. -/
inductive Recurred (libs : Libs) (start : Int) (e : RunEvent) (c : Job) (v : View) : View → Prop
  | unscheduled (hcron : c.cronExpr = none) : Recurred libs start e c v v
  | cancelled (h : c.cancelledAt.isSome = true) : Recurred libs start e c v v
  | tick {cron : String} {prev : JobRun} {runAt : Int} {res : Except SpawnError Nat} {v' : View}
      (hcron : c.cronExpr = some cron) (hlive : c.cancelledAt = none)
      (hprev : prev ∈ v.tables.runs) (hrun : prev.runId = e.runId) (hjob : prev.jobId = c.jobId)
      (hnext : nextAfter libs cron c.zone (successorAnchor prev e.occurredAt) = some runAt)
      (h : Spawned start v (.new c runAt .pending none) res v') : Recurred libs start e c v v'

/-- What part (b) of the body does for one downstream. -/
inductive Handled (start : Int) (e : RunEvent) (v : View) (d : Job) : View → Prop
  | predicateMiss (h : triggersOn d.triggerOnStatus e.eventType = false) :
    Handled start e v d (v.log start (.new e.runId e.jobId .chainSkippedPredicateMiss none none
      (some (.predicateMiss d.jobId d.triggerOnStatus e.eventType))))
  | slowConsumer (h : triggersOn d.triggerOnStatus e.eventType = true)
      (hbusy : v.tables.Executing d.jobId) :
    Handled start e v d (View.log { v with saved := none } start
      (.new e.runId e.jobId .chainSkippedSlowConsumer none none
        (some (.slowConsumer d.jobId e.eventType))))
  | duplicate (h : triggersOn d.triggerOnStatus e.eventType = true)
      (hidle : ¬v.tables.Executing d.jobId)
      (hclash : v.tables.runs.any
        (storedRun v.seq start (.new d e.occurredAt .pending (some e.runId))).clashes = true) :
    Handled start e v d { v.nextRun with saved := none }
  | fire (h : triggersOn d.triggerOnStatus e.eventType = true)
      (hidle : ¬v.tables.Executing d.jobId)
      (hclash : v.tables.runs.any
        (storedRun v.seq start (.new d e.occurredAt .pending (some e.runId))).clashes = false) :
    Handled start e v d
      { v.spawn start (.new d e.occurredAt .pending (some e.runId)) with saved := none }

/-- The loop over the downstreams. -/
inductive HandledAll (start : Int) (e : RunEvent) : View → List Job → View → Prop
  | nil (v : View) : HandledAll start e v [] v
  | cons {v v₁ v₂ : View} {d : Job} {ds : List Job} (h : Handled start e v d v₁)
      (hs : HandledAll start e v₁ ds v₂) : HandledAll start e v (d :: ds) v₂

section Body

variable {pick : Nat → Bool} {start : Int} {E : Err → View → Prop} {v : View} {libs : Libs}

theorem wp_continueRecurring {older : Job → Job → Prop} {e : RunEvent} {c : Job}
    {Q : Unit → View → Prop} (h : ∀ v', Recurred libs start e c v v' → Q () v')
    (hE : ∀ err v', E err v') :
    (continueRecurring libs e (some c)).wp (rowAccount older pick start) E Q v := by
  unfold continueRecurring
  dsimp only
  cases hcron : c.cronExpr with
  | none => exact h v (.unscheduled hcron)
  | some cron =>
    unfold materializeRecurringSuccessor
    dsimp only
    by_cases hcan : c.cancelledAt.isSome = true
    · rw [if_pos hcan]
      exact h v (.cancelled hcan)
    · rw [if_neg hcan]
      simp only [Program.wp_bind, wp_selectRuns]
      split
      · next prev hprev =>
        have hmem : prev ∈ v.tables.runs.filter
            (fun r => r.runId == e.runId && r.jobId == c.jobId) := by
          rw [hprev]; exact List.mem_cons_self
        simp only [List.mem_filter, Bool.and_eq_true, beq_iff_eq] at hmem
        unfold materializeSuccessor
        dsimp only
        by_cases hzone : libs.zoneInfo c.zone = true
        · have hz : ¬(!libs.zoneInfo (if c.timezone = "" then "UTC" else c.timezone)) = true := by
            simpa [Job.zone] using hzone
          rw [if_neg hz]
          cases hnext : nextAfter libs cron c.zone (successorAnchor prev e.occurredAt) with
          | none =>
            unfold Job.zone at hnext
            rw [hnext]
            simp only [beginNested, Program.wp_bind, wp_savepoint, wp_txn_raise]
            exact hE _ _
          | some runAt =>
            have hnext' := hnext
            unfold Job.zone at hnext'
            rw [hnext']
            simp only [Program.wp_bind]
            refine wp_beginNested_spawnRun fun res v' hs => ?_
            exact h v' (.tick hcron (by simpa using hcan) hmem.1 hmem.2.1 hmem.2.2 hnext hs)
        · have hz : (!libs.zoneInfo (if c.timezone = "" then "UTC" else c.timezone)) = true := by
            simpa [Job.zone] using hzone
          rw [if_pos hz]
          simp only [beginNested, Program.wp_bind, wp_savepoint, wp_txn_raise]
          exact hE _ _
      · exact hE _ _

theorem wp_materializeOne {older : Job → Job → Prop} {e : RunEvent} {d : Job}
    {Q : Unit → View → Prop} (h : ∀ v', Handled start e v d v' → Q () v') :
    (materializeOne e d).wp (rowAccount older pick start) E Q v := by
  unfold materializeOne
  cases ht : triggersOn d.triggerOnStatus e.eventType with
  | false =>
    simp only [Bool.not_false, if_true, wp_insertEvent]
    exact h _ (.predicateMiss ht)
  | true =>
    simp only [Bool.not_true, Bool.false_eq_true, if_false, Program.wp_bind, materializeDownstream]
    refine wp_beginNested_spawnRun fun res v' hs => ?_
    cases hs with
    | busy hb =>
      simp only [wp_insertEvent]
      exact h _ (.slowConsumer ht hb)
    | clash hidle hc => exact h _ (.duplicate ht hidle hc)
    | new hidle hc => exact h _ (.fire ht hidle hc)

theorem wp_materializeAll {older : Job → Job → Prop} {e : RunEvent} (ds : List Job)
    {Q : PUnit → View → Prop} (h : ∀ v', HandledAll start e v ds v' → Q ⟨⟩ v') :
    (ds.forM (materializeOne e)).wp (rowAccount older pick start) E Q v := by
  induction ds generalizing v with
  | nil => exact h v (.nil v)
  | cons d ds ih =>
    rw [Program.forM_cons, Program.wp_bind]
    exact wp_materializeOne fun v₁ h₁ => ih fun v₂ h₂ => h v₂ (.cons h₁ h₂)

end Body

section Paths

variable {m : Mode} {libs : Libs} {L₀ : Ledger} {start : Int} {e : RunEvent} {c r d : Job}
  {v v' : View} {due spent : Nat → Prop}

theorem Recurred.jobs (h : Recurred libs start e c v v') : v'.tables.jobs = v.tables.jobs := by
  cases h with
  | unscheduled hcron => rfl
  | cancelled h => rfl
  | tick hcron hlive hprev hrun hjob hnext h => exact h.jobs

theorem Handled.jobs (h : Handled start e v d v') : v'.tables.jobs = v.tables.jobs := by
  cases h <;> rfl

theorem HandledAll.jobs {ds : List Job} (h : HandledAll start e v ds v') :
    v'.tables.jobs = v.tables.jobs := by
  induction h with
  | nil v => rfl
  | cons h _ ih => exact ih.trans h.jobs

theorem Spawned.events_mem {row : JobRun} {res : Except SpawnError Nat}
    (h : Spawned start v row res v') {x : RunEvent} (hx : x ∈ v.tables.events) :
    x ∈ v'.tables.events := by
  cases h with
  | busy h => exact hx
  | clash hidle h => exact hx
  | new hidle h => exact List.mem_append_left _ hx

theorem Recurred.events_mem (h : Recurred libs start e c v v') {x : RunEvent}
    (hx : x ∈ v.tables.events) : x ∈ v'.tables.events := by
  cases h with
  | unscheduled hcron => exact hx
  | cancelled h => exact hx
  | tick hcron hlive hprev hrun hjob hnext h => exact h.events_mem hx

theorem Handled.events_mem (h : Handled start e v d v') {x : RunEvent}
    (hx : x ∈ v.tables.events) : x ∈ v'.tables.events := by
  cases h with
  | duplicate h hidle hclash => exact hx
  | _ => exact List.mem_append_left _ hx

theorem HandledAll.events_mem {ds : List Job} (h : HandledAll start e v ds v') {x : RunEvent}
    (hx : x ∈ v.tables.events) : x ∈ v'.tables.events := by
  induction h with
  | nil v => exact hx
  | cons h _ ih => exact ih (h.events_mem hx)

theorem Recurred.changes (h : Recurred libs start e c v v')
    (hpath : Changes m libs L₀ (v.ledger due spent)) (hk : Coherent L₀.tables L₀.seq)
    {e₀ : RunEvent} {pb : List (String × Int)} (he : e = { e₀ with processedBy := pb })
    (he₀ : e₀ ∈ v.tables.events) (hterminal : e₀.eventType.terminal = true)
    (hr : r ∈ v.tables.jobs) (hcr : c.SettledTo r) :
    Changes m libs L₀ (v'.ledger due spent) := by
  cases h with
  | unscheduled hcron => exact hpath
  | cancelled h => exact hpath
  | @tick cron prev runAt res _ hcron hlive hprev hrun hjob hnext h =>
    subst he
    have hlife := (hpath.coherent hk).lifecycle r hr
    have hsame := settledTo_aging.sameDef hcr
    have hcron' : r.cronExpr = some cron := by rw [← settledTo_aging.cronExpr hcr, hcron]
    have hactive : r.state = .active := by
      have h₁ := hlife.schedule (by simp [hcron'])
      have h₂ := mt hlife.cancelled.mp (by simp [← hcr.cancelledAt, hlive])
      cases hs : r.state with
      | active => rfl
      | completed => exact absurd hs h₁
      | cancelled => exact absurd hs h₂
    refine h.changes hpath hr hsame.jobId hactive ?_
    refine .successor hcron' he₀ hterminal hprev hrun (hjob.trans hsame.jobId) ?_
    rwa [Job.zone, ← hsame.timezone]

theorem Handled.changes (h : Handled start e v d v')
    (hpath : Changes m libs L₀ (v.ledger due spent)) {e₀ : RunEvent}
    {pb : List (String × Int)} (he : e = { e₀ with processedBy := pb })
    (he₀ : e₀ ∈ v.tables.events) (hterminal : e₀.eventType.terminal = true)
    (hnew : m.redelivers ∨ e₀.unprocessed = true) (hspent : spent e₀.eventId) (hdue : due e₀.jobId)
    (hd : d ∈ v.tables.jobs) (hactive : d.state = .active)
    (hchild : d.triggerOnJobId = some e₀.jobId) : Changes m libs L₀ (v'.ledger due spent) := by
  subst he
  cases h with
  | predicateMiss h =>
    exact hpath.tail (.skip (e := e₀) he₀ hterminal hnew hspent hd hchild (.predicateMiss h))
  | slowConsumer h hbusy =>
    exact hpath.tail (.skip (e := e₀) he₀ hterminal hnew hspent hd hchild (.slowConsumer h hbusy))
  | duplicate h hidle hclash => exact hpath.tail (.burn ⟨le_rfl, Nat.le_succ _, le_rfl⟩)
  | fire h hidle hclash =>
    exact (Spawned.new hidle hclash).changes hpath hd rfl hactive
      (.upstream (e := e₀) he₀ hterminal hnew hspent hdue hchild h rfl)

theorem HandledAll.changes {ds : List Job} (h : HandledAll start e v ds v')
    (hpath : Changes m libs L₀ (v.ledger due spent)) {e₀ : RunEvent}
    {pb : List (String × Int)} (he : e = { e₀ with processedBy := pb })
    (he₀ : e₀ ∈ v.tables.events) (hterminal : e₀.eventType.terminal = true)
    (hnew : m.redelivers ∨ e₀.unprocessed = true) (hspent : spent e₀.eventId) (hdue : due e₀.jobId)
    (hds : ∀ d ∈ ds, d ∈ v.tables.jobs ∧ d.state = .active ∧ d.triggerOnJobId = some e₀.jobId) :
    Changes m libs L₀ (v'.ledger due spent) := by
  induction h with
  | nil v => exact hpath
  | @cons v v₁ v₂ d ds h hs ih =>
    obtain ⟨hd, hactive, hchild⟩ := hds d List.mem_cons_self
    refine ih (h.changes hpath he he₀ hterminal hnew hspent hdue hd hactive hchild)
      (h.events_mem he₀) ?_
    intro d' hd'
    rw [h.jobs]
    exact hds d' (List.mem_cons_of_mem _ hd')

/-- The body for an event `e`, from `v` to `v'`: the job `r` of the event as entity `c`, the active
downstreams `ds`, and the views after each part. -/
structure Processed (m : Mode) (libs : Libs) (L₀ : Ledger) (now start : Int) (e : RunEvent)
    (c r : Job) (ds : List Job) (v v₁ v₂ v₃ v' : View) : Prop where
  row : r ∈ v.tables.jobs
  row_id : r.jobId = e.jobId
  entity : c.SettledTo r
  recurred : Recurred libs start e c v v₁
  downstreams : ds = if r.state = .cancelled then []
    else v.tables.jobs.filter fun j => j.triggerOnJobId == some e.jobId && j.state == .active
  handled : HandledAll start e v₁ ds v₂
  checked : ∃ due due', (∀ d, due d ↔ d = e.jobId ∨ ∃ a ∈ ds, a.jobId = d) ∧
    Checked m libs L₀ (fun id => False ∨ id = e.eventId) v₂ due due v₃ due'
  stamped : v'.tables =
    v₃.tables.setEvent e.eventId fun x => { x with processedBy := e.stampedBy now }
  path : Changes m libs L₀ (v'.ledger (fun _ => False) fun _ => False)

theorem stampedBy_hasKey (now : Int) (e : RunEvent) :
    (e.stampedBy now).any (fun kv => kv.1 == processedByKey) = true := by
  simp [RunEvent.stampedBy]

/-- The body of the consumer for an event that is in the table. -/
theorem processEvent_processed {pick : Nat → Bool} {now : Int} {depth : Nat}
    (hpath : Changes m libs L₀ (v.ledger (fun _ => False) fun _ => False))
    (hk : Coherent L₀.tables L₀.seq) {e₀ : RunEvent} {pb : List (String × Int)}
    (he : e = { e₀ with processedBy := pb }) (he₀ : e₀ ∈ v.tables.events)
    (hterminal : e₀.eventType.terminal = true) (hnew : m.redelivers ∨ e₀.unprocessed = true) :
    (processEvent libs now depth e).wp (rowAccount Job.SettledTo pick start) (fun _ _ => True)
      (fun _ v' => ∃ c r ds v₁ v₂ v₃,
        Processed m libs L₀ now start e c r ds v v₁ v₂ v₃ v') v := by
  have keys := hpath.coherent hk
  have hid : e.eventId = e₀.eventId := by rw [he]
  have hjid : e.jobId = e₀.jobId := by rw [he]
  have hmark := hpath.tail (.mark he₀ hterminal hnew fun h => h)
  unfold processEvent
  simp only [Program.wp_bind, wp_loadJobs]
  intro rows hrows
  rcases loaded_head hrows with ⟨-, hno⟩ | ⟨c, hsome, r, hr, hrid, hcr⟩
  · -- the event names a run, and the run names its job
    obtain ⟨run, hrun, -, hrj⟩ := keys.event_run e₀ he₀
    obtain ⟨j, hj, hjj⟩ := keys.run_job run hrun
    simpa [hjid, ← hrj, hjj] using hno j hj
  rw [hsome]
  simp only [beq_iff_eq] at hrid
  refine wp_continueRecurring (fun v₁ h₁ => ?_) fun _ _ => trivial
  have hpath₁ := h₁.changes hmark hk he he₀ hterminal hr hcr
  have he₁ := h₁.events_mem he₀
  have hcan : v.tables.Cancelled e₀.jobId ↔ r.state = .cancelled := by
    constructor
    · rintro ⟨j, hj, hjj, hs⟩
      rwa [keys.job_eq hr hj ((hrid.trans hjid).trans hjj.symm)]
    · exact fun hs => ⟨r, hr, hrid.trans hjid, hs⟩
  -- part (b) ends in the same way whether or not the upstream job is cancelled
  have hrest : ∀ ds v₂, ds = (if r.state = .cancelled then []
      else v.tables.jobs.filter fun j => j.triggerOnJobId == some e.jobId && j.state == .active) →
      HandledAll start e v₁ ds v₂ →
      (do
        let _ ← settleCheck now depth e.jobId
        ds.forM fun d => do
          let _ ← settleCheck now depth d.jobId
        Txn.updateEvents (fun x => x.eventId == e.eventId)
          (fun x => { x with processedBy := e.stampedBy now }) : Txn Unit).wp
        (rowAccount Job.SettledTo pick start) (fun _ _ => True)
        (fun _ v' => ∃ c r ds v₁ v₂ v₃,
          Processed m libs L₀ now start e c r ds v v₁ v₂ v₃ v') v₂ := by
    intro ds v₂ hds h₂
    have hmem : ∀ d ∈ ds,
        d ∈ v.tables.jobs ∧ d.state = .active ∧ d.triggerOnJobId = some e₀.jobId := by
      intro d hd
      rw [hds] at hd
      split at hd
      · cases hd
      · simp only [List.mem_filter, Bool.and_eq_true, beq_iff_eq] at hd
        exact ⟨hd.1, hd.2.2, hjid ▸ hd.2.1⟩
    have hpath₂ := h₂.changes hpath₁ he he₁ hterminal hnew (.inr rfl) (.inr (.inl rfl)) (by
      rw [h₁.jobs]
      exact hmem)
    have hdue : ∀ d, ((v.ledger (fun _ => False) fun _ => False).mark e₀).due d ↔
        d = e.jobId ∨ ∃ a ∈ ds, a.jobId = d := by
      intro d
      simp only [Ledger.mark, View.ledger, false_or, hjid, hcan]
      refine or_congr_right ⟨fun ⟨⟨j, hj, hjd, hp, hs⟩, hnc⟩ => ⟨j, ?_, hjd⟩, ?_⟩
      · rw [hds, if_neg hnc, List.mem_filter]
        simp [hj, hp, hs, hjid]
      · rintro ⟨a, ha, had⟩
        refine ⟨⟨a, (hmem a ha).1, had, (hmem a ha).2.2, (hmem a ha).2.1⟩, fun hc => ?_⟩
        rw [hds, if_pos hc] at ha
        cases ha
    have hchecks := @settleCheck_checks m libs L₀
      (fun id => False ∨ id = e₀.eventId) _ pick start settledTo_aging settledTo_settle hk now
      depth
    rw [Program.wp_bind]
    refine Program.wp_mono (hchecks e.jobId v₂ _ hpath₂ (.inl ((hdue _).mpr (.inl rfl)))) ?_
    rintro _ w ⟨due₁, hw⟩
    rw [Program.wp_bind]
    refine Program.wp_mono (hchecks.forM (·.jobId) ds w due₁ hw.path fun d hd =>
      hw.sound _ (.inl ((hdue _).mpr (.inr ⟨d, hd, rfl⟩)))) ?_
    rintro _ v₃ ⟨due₂, hw'⟩
    have hboth := hw.trans hw'
    have hnone : due₂ = fun _ => False := by
      funext d
      refine eq_false fun hd => ?_
      obtain ⟨h, hnot⟩ := hboth.owed d hd
      exact hnot ((hdue d).mp h)
    simp only [wp_updateEvents]
    have htab : (v₃.write (.updateEvents (v₃.eventIds fun x => x.eventId == e.eventId)
        fun x => { x with processedBy := e.stampedBy now })).tables =
        v₃.tables.setEvent e.eventId fun x => { x with processedBy := e.stampedBy now } :=
      updateEvents_byKey _ _ _
    refine ⟨c, r, ds, v₁, v₂, v₃, hr, hrid, hcr, h₁, hds, h₂, ⟨_, due₂, hdue, ?_⟩, htab, ?_⟩
    · have hset : (fun d => d = e.jobId ∨ ∃ a ∈ ds, a.jobId = d) =
          ((v.ledger (fun _ => False) fun _ => False).mark e₀).due := by
        funext d
        exact propext (hdue d).symm
      rw [hset] at hboth
      rw [hid]
      exact hboth
    · have hstamp := hboth.path.tail (.stamp (.inr hid) (stampedBy_hasKey now e))
      have hfree : (fun x => (False ∨ x = e₀.eventId) ∧ x ≠ e.eventId) = fun _ => False := by
        funext x
        simp [hid]
      simp only [hnone, Ledger.stamp, View.ledger, hfree] at hstamp
      unfold View.ledger
      rw [htab]
      exact hstamp
  have hany : (Option.any (fun j : Job => j.state == .cancelled) (some c)) = true ↔
      r.state = .cancelled := by
    simp [← hcr.cancelled_iff]
  unfold continueChain
  by_cases hc : r.state = .cancelled
  · rw [if_pos (hany.mpr hc)]
    exact hrest [] v₁ (by rw [if_pos hc]) (.nil v₁)
  · rw [if_neg (mt hany.mp hc)]
    unfold materializeDownstreams
    simp only [Program.wp_bind, wp_loadJobs]
    intro ds hds
    have hds' := forall₂_settledTo_eq hds fun j hj => by
      simp only [List.mem_filter, Bool.and_eq_true, beq_iff_eq] at hj
      exact hj.2.2
    rw [h₁.jobs] at hds'
    refine wp_materializeAll ds fun v₂ h₂ => ?_
    exact hrest ds v₂ (by rw [if_neg hc, hds']) h₂

/-- The other events stay as they are. -/
theorem Processed.events_mem {now : Int} {ds : List Job} {v₁ v₂ v₃ : View}
    (h : Processed m libs L₀ now start e c r ds v v₁ v₂ v₃ v') {x : RunEvent}
    (hx : x ∈ v.tables.events) (hne : x.eventId ≠ e.eventId) : x ∈ v'.tables.events := by
  obtain ⟨_, _, -, hch⟩ := h.checked
  rw [h.stamped]
  refine Tables.mem_setEvent.mpr ⟨x, ?_, if_neg hne⟩
  rw [hch.settled.events]
  exact h.handled.events_mem (h.recurred.events_mem hx)

/-- The bodies for a list of events, one after the other. -/
inductive Polled (m : Mode) (libs : Libs) (L₀ : Ledger) (now start : Int) :
    View → List RunEvent → View → Prop
  | nil {v : View} (path : Changes m libs L₀ (v.ledger (fun _ => False) fun _ => False)) :
    Polled m libs L₀ now start v [] v
  | cons {e : RunEvent} {es : List RunEvent} {c r : Job} {ds : List Job} {v v₁ v₂ v₃ v' w : View}
      (path : Changes m libs L₀ (v.ledger (fun _ => False) fun _ => False))
      (he : e ∈ v.tables.events) (hnew : e.unprocessed = true)
      (h : Processed m libs L₀ now start e c r ds v v₁ v₂ v₃ v')
      (hs : Polled m libs L₀ now start v' es w) : Polled m libs L₀ now start v (e :: es) w

theorem Polled.path {now : Int} {es : List RunEvent}
    (h : Polled m libs L₀ now start v es v') :
    Changes m libs L₀ (v'.ledger (fun _ => False) fun _ => False) := by
  induction h with
  | nil path => exact path
  | cons path he hnew h hs ih => exact ih

theorem forM_processEvent_polled {pick : Nat → Bool} {now : Int} {depth : Nat}
    (hk : Coherent L₀.tables L₀.seq) (es : List RunEvent)
    (hpath : Changes m libs L₀ (v.ledger (fun _ => False) fun _ => False))
    (hes : ∀ e ∈ es, e ∈ v.tables.events ∧ e.unprocessed = true)
    (hnd : (es.map (·.eventId)).Nodup) :
    (es.forM (processEvent libs now depth)).wp (rowAccount Job.SettledTo pick start)
      (fun _ _ => True) (fun _ v' => Polled m libs L₀ now start v es v') v := by
  induction es generalizing v with
  | nil => exact .nil hpath
  | cons e es ih =>
    obtain ⟨he, hnew⟩ := hes e List.mem_cons_self
    have hterminal : e.eventType.terminal = true := by
      simp only [RunEvent.unprocessed, Bool.and_eq_true] at hnew
      exact hnew.1
    rw [List.map_cons, List.nodup_cons] at hnd
    rw [Program.forM_cons, Program.wp_bind]
    refine Program.wp_mono (processEvent_processed hpath hk rfl he hterminal (.inr hnew)) ?_
    rintro _ v' ⟨c, r, ds, v₁, v₂, v₃, h⟩
    refine Program.wp_mono (ih h.path (fun x hx => ?_) hnd.2) fun _ w hw =>
      .cons hpath he hnew h hw
    obtain ⟨hxmem, hxnew⟩ := hes x (List.mem_cons_of_mem _ hx)
    refine ⟨h.events_mem hxmem fun heq => hnd.1 ?_, hxnew⟩
    rw [← heq]
    exact List.mem_map_of_mem hx

/-- The events that `poll_once` takes up. -/
def Tables.batch (t : Tables) (batchSize : Nat) : List RunEvent :=
  ((t.events.filter RunEvent.unprocessed).insertionSort fun a b => a.eventId ≤ b.eventId).take
    batchSize

theorem Tables.mem_batch {t : Tables} {batchSize : Nat} {x : RunEvent}
    (hx : x ∈ t.batch batchSize) : x ∈ t.events ∧ x.unprocessed = true := by
  have := List.mem_of_mem_take hx
  rw [List.mem_insertionSort, List.mem_filter] at this
  exact this

theorem Coherent.batch_nodup {t : Tables} {seq : Seq} (h : Coherent t seq) (batchSize : Nat) :
    ((t.batch batchSize).map (·.eventId)).Nodup := by
  refine List.Nodup.sublist ((List.take_sublist _ _).map _) ?_
  refine ((List.perm_insertionSort _ _).map _).nodup_iff.mpr ?_
  exact h.events.sublist (List.filter_sublist.map _)

/-- `poll_once` processes a batch of events. -/
theorem pollOnce_polled {pick : Nat → Bool} {now : Int} {depth batchSize : Nat}
    (hk : Coherent L₀.tables L₀.seq)
    (hpath : Changes m libs L₀ (v.ledger (fun _ => False) fun _ => False)) :
    (pollOnce libs now depth batchSize).wp (rowAccount Job.SettledTo pick start)
      (fun _ _ => True)
      (fun _ v' => Polled m libs L₀ now start v (v.tables.batch batchSize) v') v := by
  unfold pollOnce
  simp only [Program.wp_bind, wp_selectEvents]
  exact forM_processEvent_polled hk _ hpath (fun _ => Tables.mem_batch)
    ((hpath.coherent hk).batch_nodup batchSize)

end Paths

end TaskScheduler
