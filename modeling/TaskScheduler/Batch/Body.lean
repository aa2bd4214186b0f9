import TaskScheduler.Db.Alone
import TaskScheduler.Ledger.Consumer
import TaskScheduler.Lib.Fold

/-! The body of the continuation consumer as a function of the database.  With no other transaction
open, the statements of `poll_once` compute `Db.body` for one event after the other, although the
session may answer with entities that its own settles have left behind. -/

namespace TaskScheduler

open Lib

namespace Tables

def job? (t : Tables) (id : Nat) : Option Job := t.jobs.find? fun j => j.jobId == id

/-- Whether the job has an executing run. -/
def busy (t : Tables) (jobId : Nat) : Bool :=
  t.runs.any fun r => r.jobId == jobId && r.status.executing

/-- Whether the trigger parent of a job is active. -/
def parentActive (t : Tables) (job : Job) : Bool :=
  job.triggerOnJobId.any fun p => (t.job? p).any fun j => j.state == .active

/-- Whether a settle check of the job goes through. -/
def settles (t : Tables) (job : Job) : Bool :=
  job.state == .active && job.cronExpr.isNone && !t.busy job.jobId && !t.parentActive job

def children (t : Tables) (id : Nat) : List Job :=
  t.jobs.filter fun j => j.triggerOnJobId == some id

/-- The settle of job `id` with its cascade. -/
def settle (now : Int) : Nat → Nat → Tables → Except Err Tables
  | 0, _, _ => .error .recursion
  | depth + 1, id, t =>
    if (t.job? id).any t.settles then
      ((t.setJob id (Job.settle now)).children id).foldlM (fun t d => settle now depth d.jobId t)
        (t.setJob id (Job.settle now))
    else .ok t

/-- The downstreams that an event of job `id` reaches: none if the job is cancelled. -/
def reached (t : Tables) (id : Nat) : List Job :=
  if (t.job? id).any fun j => j.state == .cancelled then []
  else t.jobs.filter fun j => j.triggerOnJobId == some id && j.state == .active

end Tables

namespace Db

def view (x : Db) : View := ⟨x.tables, x.seq, none⟩

/-- A new run and its CREATED event, unless the job is busy or the cause is in the table. -/
def spawn (start : Int) (row : JobRun) (x : Db) : Db :=
  if x.tables.busy row.jobId then x
  else if x.tables.runs.any (storedRun x.seq start row).clashes then
    { x with seq := { x.seq with runs := x.seq.runs + 1 } }
  else ⟨(x.view.spawn start row).tables, (x.view.spawn start row).seq⟩

/-- A new event. -/
def log (start : Int) (row : RunEvent) (x : Db) : Db :=
  ⟨(x.view.log start row).tables, (x.view.log start row).seq⟩

/-- The next run of a recurring job. -/
def recur (libs : Libs) (start : Int) (e : RunEvent) (job : Job) (x : Db) : Except Err Db :=
  match job.cronExpr with
  | none => .ok x
  | some cronExpr =>
    if job.cancelledAt.isSome then .ok x
    else
      match x.tables.runs.filter fun r => r.runId == e.runId && r.jobId == job.jobId with
      | [prevRun] =>
        if !libs.zoneInfo job.zone then .error .zoneInfoNotFound
        else
          match nextAfter libs cronExpr job.zone (successorAnchor prevRun e.occurredAt) with
          | none => .error .badDate
          | some runAt => .ok (x.spawn start (.new job runAt .pending none))
      | _ => .error .noResultFound

/-- The run of a downstream, or the record that it was skipped. -/
def handle (start : Int) (e : RunEvent) (x : Db) (d : Job) : Db :=
  if !triggersOn d.triggerOnStatus e.eventType then
    x.log start (.new e.runId e.jobId .chainSkippedPredicateMiss none none
      (some (.predicateMiss d.jobId d.triggerOnStatus e.eventType)))
  else if x.tables.busy d.jobId then
    x.log start (.new e.runId e.jobId .chainSkippedSlowConsumer none none
      (some (.slowConsumer d.jobId e.eventType)))
  else x.spawn start (.new d e.occurredAt .pending (some e.runId))

/-- The settles at the end of the body, of the event's job and then of its downstreams. -/
def settleAll (now : Int) (depth : Nat) (id : Nat) (ds : List Job) (t : Tables) :
    Except Err Tables :=
  match t.settle now depth id with
  | .error err => .error err
  | .ok t₁ => ds.foldlM (fun t d => t.settle now depth d.jobId) t₁

/-- The event once it is stamped. -/
def stamp (now : Int) (e : RunEvent) (t : Tables) : Tables :=
  t.setEvent e.eventId fun x => { x with processedBy := e.stampedBy now }

/-- Parts (a) and (b) of the body. -/
def continue_ (libs : Libs) (start : Int) (e : RunEvent) (x : Db) : Except Err Db :=
  match x.tables.job? e.jobId with
  | none => .ok ((x.tables.reached e.jobId).foldl (handle start e) x)
  | some job => (x.recur libs start e job).map ((x.tables.reached e.jobId).foldl (handle start e))

/-- The body for one event. -/
def body (libs : Libs) (now start : Int) (depth : Nat) (x : Db) (e : RunEvent) : Except Err Db :=
  match x.continue_ libs start e with
  | .error err => .error err
  | .ok y =>
    (settleAll now depth e.jobId (x.tables.reached e.jobId) y.tables).map fun t =>
      { y with tables := stamp now e t }

end Db

/-! ### The settle cascade -/

section Settle

variable {pick : Nat → Bool} {start now : Int} {E : Err → View → Prop} {v : View}

theorem Tables.job?_eq_some {t : Tables} (hnd : (t.jobs.map (·.jobId)).Nodup) {j : Job}
    (hj : j ∈ t.jobs) : t.job? j.jobId = some j := by
  unfold Tables.job?
  cases hf : t.jobs.find? fun i => i.jobId == j.jobId with
  | none => simpa using List.find?_eq_none.mp hf j hj
  | some i =>
    have hid := List.find?_some hf
    rw [beq_iff_eq] at hid
    rw [List.inj_on_of_nodup_map hnd (List.mem_of_find?_eq_some hf) hj hid]

theorem Tables.job?_mem {t : Tables} {id : Nat} {j : Job} (h : t.job? id = some j) :
    j ∈ t.jobs ∧ j.jobId = id :=
  ⟨List.mem_of_find?_eq_some h, by simpa using List.find?_some h⟩

theorem Tables.job?_eq_none {t : Tables} {id : Nat} (h : ∀ j ∈ t.jobs, (j.jobId == id) = false) :
    t.job? id = none := by
  refine List.find?_eq_none.mpr fun j hj => ?_
  rw [h j hj]
  exact Bool.false_ne_true

theorem Tables.busy_iff {t : Tables} {id : Nat} : t.busy id = true ↔ t.Executing id := by
  simp [Tables.busy, Tables.Executing]

/-- What no settle changes of a job. -/
def Job.frozen (j : Job) : Job := { j with state := .active, updatedAt := 0 }

theorem Tables.setJob_frozen (t : Tables) (now : Int) (id : Nat) :
    (t.setJob id (Job.settle now)).jobs.map Job.frozen = t.jobs.map Job.frozen := by
  simp only [Tables.setJob, List.map_map]
  refine List.map_congr_left fun j _ => ?_
  simp only [Function.comp]
  split <;> rfl

/-- A settle cascade changes nothing but the lifecycle of jobs. -/
structure Tables.Unsettled (t t' : Tables) : Prop where
  jobs : t'.jobs.map Job.frozen = t.jobs.map Job.frozen
  runs : t'.runs = t.runs
  events : t'.events = t.events

theorem Tables.Unsettled.trans {t t' t'' : Tables} (h : t.Unsettled t') (h' : t'.Unsettled t'') :
    t.Unsettled t'' :=
  ⟨h'.jobs.trans h.jobs, h'.runs.trans h.runs, h'.events.trans h.events⟩

theorem Tables.settle_unsettled {depth id : Nat} {t t' : Tables}
    (h : t.settle now depth id = .ok t') : t.Unsettled t' := by
  induction depth generalizing id t t' with
  | zero => cases h
  | succ depth ih =>
    simp only [Tables.settle] at h
    split at h
    · refine foldlM_invariant (I := t.Unsettled) (fun s s' d _ hs hd => hs.trans (ih hd)) ?_ h
      exact ⟨t.setJob_frozen now id, rfl, rfl⟩
    · cases h
      exact ⟨rfl, rfl, rfl⟩

theorem Tables.Unsettled.keys {t t' : Tables} (h : t.Unsettled t') :
    t'.jobs.map (·.jobId) = t.jobs.map (·.jobId) := by
  have := congrArg (List.map Job.jobId) h.jobs
  rwa [List.map_map, List.map_map] at this

/-- `check` computes `f`, whatever the session has loaded. -/
def Computes (pick : Nat → Bool) (start : Int) (check : Nat → Txn Bool)
    (f : Nat → Tables → Except Err Tables) : Prop :=
  ∀ (id : Nat) (v : View) (E : Err → View → Prop) (Q : Bool → View → Prop),
    (v.tables.jobs.map (·.jobId)).Nodup →
    (∀ b t, f id v.tables = .ok t → Q b { v with tables := t }) →
    (∀ err v', f id v.tables = .error err → E err v') →
    (check id).wp (rowAccount Job.SettledTo pick start) E Q v

theorem Computes.forM {check : Nat → Txn Bool} {f : Nat → Tables → Except Err Tables}
    (hcheck : Computes pick start check f)
    (hkeys : ∀ id t t', f id t = .ok t' → t'.jobs.map (·.jobId) = t.jobs.map (·.jobId))
    (ds : List Job) {Q : PUnit → View → Prop} (hnd : (v.tables.jobs.map (·.jobId)).Nodup)
    (hok : ∀ t, ds.foldlM (fun t d => f d.jobId t) v.tables = .ok t → Q ⟨⟩ { v with tables := t })
    (herr : ∀ err v', ds.foldlM (fun t d => f d.jobId t) v.tables = .error err → E err v') :
    (ds.forM fun d => do let _ ← check d.jobId).wp (rowAccount Job.SettledTo pick start) E Q v := by
  induction ds generalizing v with
  | nil => exact hok v.tables rfl
  | cons d ds ih =>
    rw [Program.forM_cons, Program.wp_bind, Program.wp_bind]
    refine hcheck d.jobId v _ _ hnd (fun _ t ht => ?_) fun err v' ht => herr err v' ?_
    · refine ih (by rw [hkeys _ _ _ ht]; exact hnd) (fun t' ht' => hok t' ?_)
        fun err v' ht' => herr err v' ?_
      · rw [List.foldlM_cons, ht]
        exact ht'
      · rw [List.foldlM_cons, ht]
        exact ht'
    · rw [List.foldlM_cons, ht]
      rfl

theorem wp_parentActive {Q : Bool → View → Prop} {c : Job} (h : Q (v.tables.parentActive c) v) :
    (triggerParentActive c).wp (rowAccount Job.SettledTo pick start) E Q v := by
  unfold triggerParentActive
  cases hp : c.triggerOnJobId with
  | none =>
    simp only [Tables.parentActive, hp] at h
    exact h
  | some p =>
    simp only [Program.wp_bind, wp_selectJobs, Program.pure_eq, Program.wp_ret]
    simpa only [Tables.parentActive, hp, Option.any_some, Tables.job?, List.head?_filter] using h

/-- The compare-and-set of a settle where the row is active. -/
theorem wp_settleCas {Q : List Nat → View → Prop} {r : Job}
    (hnd : (v.tables.jobs.map (·.jobId)).Nodup) (hr : r ∈ v.tables.jobs)
    (won : r.state = .active → ∀ ids, ids ≠ [] →
      Q ids { v with tables := v.tables.setJob r.jobId (Job.settle now) })
    (lost : r.state ≠ .active → Q [] v) :
    (Txn.updateJobs (fun j => j.jobId == r.jobId && j.state == .active) (Job.settle now)).wp
      (rowAccount Job.SettledTo pick start) E Q v := by
  rw [wp_updateJobs]
  refine ⟨fun j hj => settledTo_settle now j ?_, ?_⟩
  · simp only [Bool.and_eq_true, beq_iff_eq] at hj
    exact hj.2
  by_cases hrow : r.state = .active
  · have hp : (r.jobId == r.jobId && r.state == .active) = true := by simp [hrow]
    have hset := @updateJobs_byKey v.tables r hr
      (fun j => j.jobId == r.jobId && j.state == .active) hp (fun i hi => by
        simp only [Bool.and_eq_true, beq_iff_eq] at hi
        exact hi.1) (Job.settle now)
    have hgo := won hrow (v.jobIds fun j => j.jobId == r.jobId && j.state == .active)
      (List.ne_nil_of_mem (List.mem_map.mpr ⟨r, List.mem_filter.mpr ⟨hr, hp⟩, rfl⟩))
    rw [← hset] at hgo
    exact hgo
  · have hids : (v.jobIds fun j => j.jobId == r.jobId && j.state == .active) = [] := by
      rw [View.jobIds, List.map_eq_nil_iff, List.filter_eq_nil_iff]
      intro j hj hp
      simp only [Bool.and_eq_true, beq_iff_eq] at hp
      rw [List.inj_on_of_nodup_map hnd hj hr hp.1] at hp
      exact hrow hp.2
    have hview : v.write (.updateJobs [] (Job.settle now)) = v := by
      simp [View.write, Write.apply]
    rw [hids, hview]
    exact lost hrow

theorem settleCheck_computes (now : Int) (depth : Nat) :
    Computes pick start (settleCheck now depth) (Tables.settle now depth) := by
  induction depth with
  | zero => exact fun id v E Q _ _ herr => herr _ _ rfl
  | succ depth ih =>
    intro id v E Q hnd hok herr
    unfold settleCheck
    simp only [Program.wp_bind, wp_loadJobs]
    intro rows hrows
    rcases loaded_head hrows with ⟨hnone, hno⟩ | ⟨c, hsome, r, hr, hrid, hcr⟩
    · rw [hnone]
      refine hok _ v.tables ?_
      simp only [Tables.settle, Tables.job?_eq_none hno]
      rfl
    rw [hsome]
    dsimp only
    simp only [beq_iff_eq] at hrid
    subst hrid
    -- the row decides, and a check that does not settle leaves the tables as they are
    have hstay : v.tables.settles r = false → ∀ b, Q b v := by
      intro hs b
      refine hok b v.tables ?_
      simp [Tables.settle, Tables.job?_eq_some hnd hr, hs]
    have hentity : c.state ≠ .active → r.state ≠ .active := by
      rcases hcr with rfl | ⟨ha, -⟩
      · exact id
      · exact fun h => absurd ha h
    have hcronEq := settledTo_aging.cronExpr hcr
    by_cases hactive : (c.state != .active) = true
    · rw [if_pos hactive]
      exact hstay (by simp [Tables.settles, hentity (by simpa using hactive)]) _
    rw [if_neg hactive]
    by_cases hcron : c.cronExpr.isSome = true
    · rw [if_pos hcron]
      rw [hcronEq, Option.isSome_iff_ne_none] at hcron
      exact hstay (by simp [Tables.settles, hcron]) _
    rw [if_neg hcron]
    simp only [acquireJobLock, Program.wp_bind, wp_advisoryLock]
    refine wp_hasExecutingRun fun b hb => ?_
    have hbusy : b = v.tables.busy r.jobId := by
      rw [Bool.eq_iff_iff, hb, Tables.busy_iff]
    cases b with
    | true => exact hstay (by simp [Tables.settles, ← hbusy]) _
    | false =>
      simp only [Bool.false_eq_true, if_false, Program.wp_bind]
      refine wp_parentActive ?_
      have hparent : v.tables.parentActive c = v.tables.parentActive r := by
        unfold Tables.parentActive
        rw [settledTo_aging.triggerOnJobId hcr]
      cases hpa : v.tables.parentActive c with
      | true => exact hstay (by simp [Tables.settles, ← hparent, hpa]) _
      | false =>
        simp only [Bool.false_eq_true, if_false, Program.wp_bind]
        refine wp_settleCas hnd hr (fun hrow ids hids => ?_) fun hrow => ?_
        · have hs : v.tables.settles r = true := by
            rw [hcronEq] at hcron
            simp [Tables.settles, hrow, ← hbusy, ← hparent, hpa, Option.not_isSome_iff_eq_none.mp hcron]
          have hgo : v.tables.settle now (depth + 1) r.jobId =
              ((v.tables.setJob r.jobId (Job.settle now)).children r.jobId).foldlM
                (fun t d => t.settle now depth d.jobId)
                (v.tables.setJob r.jobId (Job.settle now)) := by
            simp [Tables.settle, Tables.job?_eq_some hnd hr, hs]
          rw [if_neg (by simpa using hids)]
          simp only [Program.wp_bind, settleDownstreams, wp_selectJobs]
          refine ih.forM (fun _ _ _ h => (Tables.settle_unsettled h).keys) _ ?_
            (fun t ht => hok true t (hgo.trans ht)) fun err v' ht => herr err v' (hgo.trans ht)
          have hset : v.tables.Unsettled (v.tables.setJob r.jobId (Job.settle now)) :=
            ⟨v.tables.setJob_frozen now r.jobId, rfl, rfl⟩
          rw [hset.keys]
          exact hnd
        · -- the entity is behind the row, and the compare-and-set matches nothing
          exact hstay (by simp [Tables.settles, hrow]) _

end Settle

/-! ### The body -/

section Body

variable {pick : Nat → Bool} {start now : Int} {E : Err → View → Prop} {libs : Libs} {e : RunEvent}

/-- A spawn in its savepoint ends in the view of `Db.spawn`. -/
theorem Spawned.eq_spawn {x : Db} {row : JobRun} {res : Except SpawnError Nat} {v' : View}
    (h : Spawned start x.view row res v') : v' = (x.spawn start row).view := by
  unfold Db.spawn
  cases h with
  | busy h =>
    have hb : x.tables.busy row.jobId = true := Tables.busy_iff.mpr h
    rw [if_pos hb]
    rfl
  | clash hidle h =>
    have hb : ¬x.tables.busy row.jobId = true := mt Tables.busy_iff.mp hidle
    have hc : x.tables.runs.any (storedRun x.seq start row).clashes = true := h
    rw [if_neg hb, if_pos hc]
    rfl
  | new hidle h =>
    have hb : ¬x.tables.busy row.jobId = true := mt Tables.busy_iff.mp hidle
    have hc : ¬x.tables.runs.any (storedRun x.seq start row).clashes = true := by
      rw [Bool.not_eq_true]
      exact h
    rw [if_neg hb, if_neg hc]
    rfl

theorem Handled.eq_handle {x : Db} {d : Job} {v' : View} (h : Handled start e x.view d v') :
    v' = (x.handle start e d).view := by
  unfold Db.handle
  cases h with
  | predicateMiss ht =>
    simp only [ht, Bool.not_false, if_true]
    rfl
  | slowConsumer ht hbusy =>
    have hb : x.tables.busy d.jobId = true := Tables.busy_iff.mpr hbusy
    simp only [ht, Bool.not_true, Bool.false_eq_true, if_false, if_pos hb]
    rfl
  | duplicate ht hidle hclash =>
    have hb : ¬x.tables.busy d.jobId = true := mt Tables.busy_iff.mp hidle
    simp only [ht, Bool.not_true, Bool.false_eq_true, if_false, if_neg hb]
    have h : Spawned start x.view (.new d e.occurredAt .pending (some e.runId)) _ _ :=
      .clash hidle hclash
    exact h.eq_spawn
  | fire ht hidle hclash =>
    have hb : ¬x.tables.busy d.jobId = true := mt Tables.busy_iff.mp hidle
    simp only [ht, Bool.not_true, Bool.false_eq_true, if_false, if_neg hb]
    have h : Spawned start x.view (.new d e.occurredAt .pending (some e.runId)) _ _ :=
      .new hidle hclash
    exact h.eq_spawn

theorem HandledAll.eq_foldl {x : Db} {ds : List Job} {v' : View}
    (h : HandledAll start e x.view ds v') : v' = (ds.foldl (Db.handle start e) x).view := by
  induction ds generalizing x with
  | nil =>
    cases h
    rfl
  | cons d ds ih =>
    cases h with
    | cons h hs =>
      rw [h.eq_handle] at hs
      exact ih hs

/-- The successor of a recurring job, from an entity that is at most behind the row. -/
theorem wp_recur {x : Db} {c r : Job} (hcr : c.SettledTo r) {Q : Unit → View → Prop}
    (hok : ∀ y, x.recur libs start e r = .ok y → Q () y.view)
    (herr : ∀ err v', x.recur libs start e r = .error err → E err v') :
    (continueRecurring libs e (some c)).wp (rowAccount Job.SettledTo pick start) E Q x.view := by
  have hsame := settledTo_aging.sameDef hcr
  have hzoneEq : c.zone = r.zone := by rw [Job.zone, hsame.timezone, Job.zone]
  unfold continueRecurring
  unfold Db.recur at hok herr
  rw [← settledTo_aging.cronExpr hcr, ← hcr.cancelledAt, ← hsame.jobId, ← hzoneEq] at hok herr
  dsimp only
  cases hcron : c.cronExpr with
  | none =>
    rw [hcron] at hok
    exact hok x rfl
  | some cron =>
    rw [hcron] at hok herr
    unfold materializeRecurringSuccessor
    dsimp only at hok herr ⊢
    by_cases hcan : c.cancelledAt.isSome = true
    · rw [if_pos hcan] at hok ⊢
      exact hok x rfl
    rw [if_neg hcan] at hok herr ⊢
    simp only [Program.wp_bind, wp_selectRuns]
    have hview : x.view.tables.runs = x.tables.runs := rfl
    rw [hview]
    split
    · next prev hprev =>
      rw [hprev] at hok herr
      dsimp only at hok herr
      unfold materializeSuccessor
      dsimp only
      have hz : (if c.timezone = "" then "UTC" else c.timezone) = c.zone := rfl
      rw [hz]
      by_cases hzone : (!libs.zoneInfo c.zone) = true
      · rw [if_pos hzone] at herr ⊢
        simp only [beginNested, Program.wp_bind, wp_savepoint, wp_txn_raise]
        exact herr _ _ rfl
      rw [if_neg hzone] at hok herr ⊢
      cases hnext : nextAfter libs cron c.zone (successorAnchor prev e.occurredAt) with
      | none =>
        rw [hnext] at herr
        simp only [beginNested, Program.wp_bind, wp_savepoint, wp_txn_raise]
        exact herr _ _ rfl
      | some runAt =>
        rw [hnext] at hok
        simp only [Program.wp_bind]
        refine wp_beginNested_spawnRun fun res v' hs => ?_
        rw [hs.eq_spawn]
        have hrow : JobRun.new r runAt .pending none = JobRun.new c runAt .pending none := by
          simp [JobRun.new, hsame.jobId, hsame.userId]
        rw [← hrow]
        exact hok _ rfl
    · next hother =>
      refine herr _ _ ?_
      split
      · next prev hprev => exact absurd hprev (hother prev)
      · rfl

theorem Db.spawn_jobs (x : Db) (row : JobRun) : (x.spawn start row).tables.jobs = x.tables.jobs := by
  unfold Db.spawn
  split
  · rfl
  · split <;> rfl

theorem Db.recur_jobs {x y : Db} {r : Job} (h : x.recur libs start e r = .ok y) :
    y.tables.jobs = x.tables.jobs := by
  unfold Db.recur at h
  split at h
  · cases h
    rfl
  split at h
  · cases h
    rfl
  split at h
  · split at h
    · cases h
    split at h
    · cases h
    · cases h
      exact x.spawn_jobs _
  · cases h

theorem Db.handle_jobs (x : Db) (d : Job) : (x.handle start e d).tables.jobs = x.tables.jobs := by
  unfold Db.handle
  split
  · rfl
  split
  · rfl
  · exact x.spawn_jobs _

theorem Db.foldl_handle_jobs (ds : List Job) (x : Db) :
    (ds.foldl (Db.handle start e) x).tables.jobs = x.tables.jobs := by
  induction ds generalizing x with
  | nil => rfl
  | cons d ds ih => exact (ih _).trans (x.handle_jobs d)

theorem Db.continue_jobs {x y : Db} (h : x.continue_ libs start e = .ok y) :
    y.tables.jobs = x.tables.jobs := by
  unfold Db.continue_ at h
  split at h
  · cases h
    exact Db.foldl_handle_jobs _ _
  · next r hr =>
    cases hrec : x.recur libs start e r with
    | error err =>
      rw [hrec] at h
      cases h
    | ok z =>
      rw [hrec] at h
      cases h
      exact (Db.foldl_handle_jobs _ _).trans (Db.recur_jobs hrec)

/-- Part (c) of the body and its stamp, once the downstreams are known. -/
def settleAndStamp (now : Int) (depth : Nat) (e : RunEvent) (ds : List Job) : Txn Unit := do
  let _ ← settleCheck now depth e.jobId
  ds.forM fun d => do
    let _ ← settleCheck now depth d.jobId
  Txn.updateEvents (fun x => x.eventId == e.eventId)
    (fun x => { x with processedBy := e.stampedBy now })

theorem wp_settleAndStamp {v : View} {depth : Nat} {ds : List Job} {Q : Unit → View → Prop}
    (hnd : (v.tables.jobs.map (·.jobId)).Nodup)
    (hok : ∀ t, Db.settleAll now depth e.jobId ds v.tables = .ok t →
      Q () { v with tables := Db.stamp now e t })
    (herr : ∀ err v', Db.settleAll now depth e.jobId ds v.tables = .error err → E err v') :
    (settleAndStamp now depth e ds).wp (rowAccount Job.SettledTo pick start) E Q v := by
  unfold settleAndStamp
  have hcheck := @settleCheck_computes pick start now depth
  unfold Db.settleAll at hok herr
  rw [Program.wp_bind]
  refine hcheck e.jobId v _ _ hnd (fun _ t ht => ?_) fun err v' ht => herr err v' (by rw [ht])
  rw [ht] at hok herr
  rw [Program.wp_bind]
  refine hcheck.forM (fun _ _ _ h => (Tables.settle_unsettled h).keys) ds
    (by rw [(Tables.settle_unsettled ht).keys]; exact hnd) (fun t' ht' => ?_) herr
  rw [wp_updateEvents]
  have htab := updateEvents_byKey t' (fun x => { x with processedBy := e.stampedBy now }) e.eventId
  have hgo := hok t' ht'
  rw [Db.stamp, ← htab] at hgo
  exact hgo

/-- The body for one event computes `Db.body`. -/
theorem wp_body {depth : Nat} {x : Db} {Q : Unit → View → Prop}
    (hnd : (x.tables.jobs.map (·.jobId)).Nodup)
    (hok : ∀ y, x.body libs now start depth e = .ok y → Q () y.view)
    (herr : ∀ err v', x.body libs now start depth e = .error err → E err v') :
    (processEvent libs now depth e).wp (rowAccount Job.SettledTo pick start) E Q x.view := by
  unfold processEvent
  simp only [Program.wp_bind, wp_loadJobs]
  intro rows hload
  have hrows : List.Forall₂ Job.SettledTo rows (x.tables.jobs.filter fun j => j.jobId == e.jobId) :=
    hload
  -- parts (b) and (c), once part (a) has led to `y`
  have hrest : ∀ y, (y.tables.jobs = x.tables.jobs) →
      x.continue_ libs start e = .ok ((x.tables.reached e.jobId).foldl (Db.handle start e) y) →
      (continueChain e rows.head? >>= settleAndStamp now depth e).wp
        (rowAccount Job.SettledTo pick start) E Q y.view := by
    intro y hjobs hcont
    have hbody : x.body libs now start depth e =
        (Db.settleAll now depth e.jobId (x.tables.reached e.jobId)
          ((x.tables.reached e.jobId).foldl (Db.handle start e) y).tables).map fun t =>
            { (x.tables.reached e.jobId).foldl (Db.handle start e) y with
              tables := Db.stamp now e t } := by
      rw [Db.body, hcont]
    have hlast : ∀ ds, ds = x.tables.reached e.jobId →
        (settleAndStamp now depth e ds).wp (rowAccount Job.SettledTo pick start) E Q
          ((x.tables.reached e.jobId).foldl (Db.handle start e) y).view := by
      rintro ds rfl
      refine wp_settleAndStamp ?_ (fun t ht => ?_) fun err v' ht => herr err v' ?_
      · show (((x.tables.reached e.jobId).foldl (Db.handle start e) y).tables.jobs.map
          (·.jobId)).Nodup
        rw [Db.foldl_handle_jobs, hjobs]
        exact hnd
      · have hgo := hok _ (by
          rw [hbody]
          exact congrArg (Except.map _) ht)
        exact hgo
      · rw [hbody]
        exact congrArg (Except.map _) ht
    have hcancelled : rows.head?.any (fun j => j.state == .cancelled) =
        (x.tables.job? e.jobId).any fun j => j.state == .cancelled := by
      rcases loaded_head hrows with ⟨hnone, hno⟩ | ⟨c, hsome, r, hr, hrid, hcr⟩
      · rw [hnone, Tables.job?_eq_none hno]
      · rw [beq_iff_eq] at hrid
        rw [hsome, ← hrid, Tables.job?_eq_some hnd hr, Option.any_some, Option.any_some,
          Bool.eq_iff_iff]
        simpa using hcr.cancelled_iff
    rw [Program.wp_bind]
    unfold continueChain
    rw [hcancelled]
    by_cases hc : ((x.tables.job? e.jobId).any fun j => j.state == .cancelled) = true
    · rw [if_pos hc]
      have hnil : x.tables.reached e.jobId = [] := by rw [Tables.reached, if_pos hc]
      have hgo := hlast [] hnil.symm
      rw [hnil] at hgo
      exact hgo
    · rw [if_neg hc]
      unfold materializeDownstreams
      simp only [Program.wp_bind, wp_loadJobs]
      intro ds hds
      have hds' := forall₂_settledTo_eq hds fun j hj => by
        simp only [List.mem_filter, Bool.and_eq_true, beq_iff_eq] at hj
        exact hj.2.2
      have hreached : ds = x.tables.reached e.jobId := by
        rw [hds', Tables.reached, if_neg hc]
        exact congrArg (List.filter _) hjobs
      refine wp_materializeAll ds fun v₂ h₂ => ?_
      rw [h₂.eq_foldl, hreached]
      exact hlast _ rfl
  rcases loaded_head hrows with ⟨hnone, hno⟩ | ⟨c, hsome, r, hr, hrid, hcr⟩
  · rw [hnone] at hrest ⊢
    refine hrest x rfl ?_
    rw [Db.continue_, Tables.job?_eq_none hno]
  · rw [beq_iff_eq] at hrid
    have hjob := Tables.job?_eq_some hnd hr
    rw [hrid] at hjob
    rw [hsome] at hrest ⊢
    refine wp_recur hcr (fun y hy => ?_) fun err v' hy => herr err v' ?_
    · refine hrest y (Db.recur_jobs hy) ?_
      rw [Db.continue_, hjob]
      dsimp only
      rw [hy]
      rfl
    · rw [Db.body, Db.continue_, hjob]
      dsimp only
      rw [hy]
      rfl

theorem Db.settleAll_unsettled {depth id : Nat} {ds : List Job} {t t' : Tables}
    (h : Db.settleAll now depth id ds t = .ok t') : t.Unsettled t' := by
  unfold Db.settleAll at h
  split at h
  · cases h
  · next t₁ ht₁ =>
    exact foldlM_invariant (I := t.Unsettled)
      (fun s s' d _ hs hd => hs.trans (Tables.settle_unsettled hd)) (Tables.settle_unsettled ht₁) h

/-- The body creates runs and logs events, settles jobs, and stamps its event. -/
theorem Db.body_ok {depth : Nat} {x y : Db} (h : x.body libs now start depth e = .ok y) :
    ∃ z t, x.continue_ libs start e = .ok z ∧ z.tables.Unsettled t ∧
      y = { z with tables := Db.stamp now e t } := by
  unfold Db.body at h
  cases hcont : x.continue_ libs start e with
  | error err =>
    rw [hcont] at h
    cases h
  | ok z =>
    rw [hcont] at h
    dsimp only at h
    cases hs : Db.settleAll now depth e.jobId (x.tables.reached e.jobId) z.tables with
    | error err =>
      rw [hs] at h
      cases h
    | ok t =>
      rw [hs] at h
      cases h
      exact ⟨z, t, rfl, Db.settleAll_unsettled hs, rfl⟩

theorem Db.body_keys {depth : Nat} {x y : Db} (h : x.body libs now start depth e = .ok y) :
    y.tables.jobs.map (·.jobId) = x.tables.jobs.map (·.jobId) := by
  obtain ⟨z, t, hcont, ht, rfl⟩ := Db.body_ok h
  rw [← Db.continue_jobs hcont]
  exact ht.keys

/-- The bodies of a batch, one after the other. -/
def Db.bodies (libs : Libs) (now start : Int) (depth : Nat) (es : List RunEvent) (x : Db) :
    Except Err Db :=
  es.foldlM (Db.body libs now start depth) x

theorem wp_bodies {depth : Nat} (es : List RunEvent) {x : Db} {Q : PUnit → View → Prop}
    (hnd : (x.tables.jobs.map (·.jobId)).Nodup)
    (hok : ∀ y, x.bodies libs now start depth es = .ok y → Q ⟨⟩ y.view)
    (herr : ∀ err v', x.bodies libs now start depth es = .error err → E err v') :
    (es.forM (processEvent libs now depth)).wp (rowAccount Job.SettledTo pick start) E Q
      x.view := by
  induction es generalizing x with
  | nil => exact hok x rfl
  | cons e es ih =>
    unfold Db.bodies at hok herr
    rw [List.foldlM_cons] at hok herr
    rw [Program.forM_cons, Program.wp_bind]
    refine wp_body hnd (fun y hy => ?_) fun err v' hy => herr err v' (by rw [hy]; rfl)
    rw [hy] at hok herr
    exact ih (by rw [Db.body_keys hy]; exact hnd) hok herr

end Body

end TaskScheduler
