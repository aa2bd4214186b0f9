import TaskScheduler.Batch.Body

/-! The clock readings that the consumer stores are never read by it: the body for an event does the
same to two databases that differ only in them. -/

namespace TaskScheduler

open Lib

/-- The row without the time of its last settle. -/
def Job.erase (j : Job) : Job := { j with updatedAt := 0 }

/-- The row without the times at which it was stored and touched. -/
def JobRun.erase (r : JobRun) : JobRun := { r with createdAt := 0, updatedAt := 0 }

/-- The value of the consumer's key in `processed_by` is a clock reading. -/
def eraseMark (kv : String × Int) : String × Int := if kv.1 = processedByKey then (kv.1, 0) else kv

/-- The row without the clock readings of the consumer: the time of an event that it may have logged,
and the time of its stamp. -/
def RunEvent.erase (e : RunEvent) : RunEvent :=
  { e with
    occurredAt := if e.eventType.terminal then e.occurredAt else 0
    processedBy := e.processedBy.map eraseMark }

/-- The tables up to stamp times. -/
def Tables.erase (t : Tables) : Tables where
  jobs := t.jobs.map Job.erase
  runs := t.runs.map JobRun.erase
  events := t.events.map RunEvent.erase

def Db.erase (x : Db) : Db := ⟨x.tables.erase, x.seq⟩

/-! ### The settle cascade -/

theorem Tables.job?_erase (t : Tables) (id : Nat) : t.erase.job? id = (t.job? id).map Job.erase := by
  simp only [Tables.job?, Tables.erase, List.find?_map]
  rfl

theorem Tables.busy_erase (t : Tables) (id : Nat) : t.erase.busy id = t.busy id := by
  simp only [Tables.busy, Tables.erase, List.any_map]
  rfl

theorem Tables.parentActive_erase (t : Tables) (j : Job) :
    t.erase.parentActive j.erase = t.parentActive j := by
  have hp : j.erase.triggerOnJobId = j.triggerOnJobId := rfl
  unfold Tables.parentActive
  rw [hp]
  congr 1
  funext p
  rw [Tables.job?_erase, Option.any_map]
  rfl

theorem Tables.settles_erase (t : Tables) (j : Job) : t.erase.settles j.erase = t.settles j := by
  unfold Tables.settles
  rw [Tables.parentActive_erase, Tables.busy_erase]
  rfl

theorem Tables.children_erase (t : Tables) (id : Nat) :
    t.erase.children id = (t.children id).map Job.erase := by
  simp only [Tables.children, Tables.erase, List.filter_map]
  rfl

theorem Tables.setJob_erase (t : Tables) (id : Nat) (now : Int) :
    (t.setJob id (Job.settle now)).erase = t.erase.setJob id (Job.settle 0) := by
  simp only [Tables.setJob, Tables.erase, List.map_map, Tables.mk.injEq, and_true]
  refine List.map_congr_left fun j _ => ?_
  simp only [Function.comp]
  have hid : j.erase.jobId = j.jobId := rfl
  rw [hid]
  split <;> rfl

theorem Tables.settle_erase (now : Int) (depth id : Nat) (t : Tables) :
    (t.settle now depth id).map Tables.erase = t.erase.settle 0 depth id := by
  induction depth generalizing id t with
  | zero => rfl
  | succ depth ih =>
    have hcond : (t.erase.job? id).any t.erase.settles = (t.job? id).any t.settles := by
      rw [Tables.job?_erase, Option.any_map]
      congr 1
      funext j
      exact t.settles_erase j
    simp only [Tables.settle]
    rw [hcond]
    split
    · rw [← Tables.setJob_erase t id now, Tables.children_erase]
      exact foldlM_map_state _ (fun s d _ => ih d.jobId s) _
    · rfl

/-! ### Runs and events -/

section Body

variable {start : Int} {libs : Libs} {e : RunEvent}

theorem Db.spawn_erase (x : Db) (row : JobRun) :
    (x.spawn start row).erase = x.erase.spawn 0 row := by
  have hbusy : x.erase.tables.busy row.jobId = x.tables.busy row.jobId := x.tables.busy_erase _
  have hclash : x.erase.tables.runs.any (storedRun x.erase.seq 0 row).clashes =
      x.tables.runs.any (storedRun x.seq start row).clashes := by
    simp only [Db.erase, Tables.erase, List.any_map]
    rfl
  unfold Db.spawn
  rw [hbusy, hclash]
  split
  · rfl
  split
  · rfl
  · simp [Db.erase, Tables.erase, View.spawn, View.write, View.nextRun, View.nextEvent, Write.apply,
      Db.view, storedRun, JobRun.erase, storedEvent, RunEvent.erase, RunEvent.new, EventType.terminal]

theorem Db.log_erase (x : Db) {row : RunEvent} (h : row.eventType.terminal = false) :
    (x.log start row).erase = x.erase.log 0 row := by
  simp [Db.log, Db.erase, Tables.erase, View.log, View.write, View.nextEvent, Write.apply, Db.view,
    storedEvent, RunEvent.erase, h]

theorem Db.handle_erase (x : Db) (d : Job) :
    (x.handle start e d).erase = x.erase.handle 0 e d.erase := by
  have hbusy : x.erase.tables.busy d.erase.jobId = x.tables.busy d.jobId := x.tables.busy_erase _
  have htrigger : d.erase.triggerOnStatus = d.triggerOnStatus := rfl
  unfold Db.handle
  rw [hbusy, htrigger]
  split
  · exact x.log_erase rfl
  split
  · exact x.log_erase rfl
  · exact x.spawn_erase _

theorem Db.foldl_handle_erase (ds : List Job) (x : Db) :
    (ds.foldl (Db.handle start e) x).erase =
      (ds.map Job.erase).foldl (Db.handle 0 e) x.erase := by
  induction ds generalizing x with
  | nil => rfl
  | cons d ds ih =>
    rw [List.map_cons, List.foldl_cons, List.foldl_cons, ih, Db.handle_erase]

theorem Db.recur_erase (start : Int) (x : Db) (job : Job) :
    (x.recur libs start e job).map Db.erase = x.erase.recur libs 0 e job.erase := by
  have hcron : job.erase.cronExpr = job.cronExpr := rfl
  have hcan : job.erase.cancelledAt = job.cancelledAt := rfl
  have hzone : job.erase.zone = job.zone := rfl
  have hid : job.erase.jobId = job.jobId := rfl
  have hruns : x.erase.tables.runs.filter (fun r => r.runId == e.runId && r.jobId == job.jobId) =
      (x.tables.runs.filter fun r => r.runId == e.runId && r.jobId == job.jobId).map
        JobRun.erase := by
    simp only [Db.erase, Tables.erase, List.filter_map]
    rfl
  unfold Db.recur
  rw [hcron, hcan, hzone, hid, hruns]
  cases job.cronExpr with
  | none => rfl
  | some cron =>
    dsimp only
    split
    · rfl
    generalize x.tables.runs.filter (fun r => r.runId == e.runId && r.jobId == job.jobId) = rows
    rcases rows with _ | ⟨prev, _ | ⟨_, _⟩⟩
    · rfl
    · have hanchor : successorAnchor prev.erase e.occurredAt = successorAnchor prev e.occurredAt :=
        rfl
      simp only [List.map_cons, List.map_nil]
      rw [hanchor]
      split
      · rfl
      cases nextAfter libs cron job.zone (successorAnchor prev e.occurredAt) with
      | none => rfl
      | some runAt => exact congrArg Except.ok (x.spawn_erase _)
    · rfl

theorem Tables.reached_erase (t : Tables) (id : Nat) :
    t.erase.reached id = (t.reached id).map Job.erase := by
  have hcond : ((t.erase.job? id).any fun j => j.state == .cancelled) =
      (t.job? id).any fun j => j.state == .cancelled := by
    rw [Tables.job?_erase, Option.any_map]
    rfl
  unfold Tables.reached
  rw [hcond]
  split
  · rfl
  · simp only [Tables.erase, List.filter_map]
    rfl

theorem Db.continue_erase (start : Int) (x : Db) :
    (x.continue_ libs start e).map Db.erase = x.erase.continue_ libs 0 e := by
  have hjob : x.erase.tables.job? e.jobId = (x.tables.job? e.jobId).map Job.erase :=
    x.tables.job?_erase _
  have hreached : x.erase.tables.reached e.jobId = (x.tables.reached e.jobId).map Job.erase :=
    x.tables.reached_erase _
  unfold Db.continue_
  rw [hjob, hreached]
  cases x.tables.job? e.jobId with
  | none => exact congrArg Except.ok (Db.foldl_handle_erase _ _)
  | some job =>
    simp only [Option.map_some]
    rw [← Db.recur_erase start]
    cases x.recur libs start e job with
    | error err => rfl
    | ok y => exact congrArg Except.ok (Db.foldl_handle_erase _ _)

theorem Db.settleAll_erase (now : Int) (depth id : Nat) (ds : List Job) (t : Tables) :
    (Db.settleAll now depth id ds t).map Tables.erase =
      Db.settleAll 0 depth id (ds.map Job.erase) t.erase := by
  unfold Db.settleAll
  rw [← Tables.settle_erase now]
  cases t.settle now depth id with
  | error err => rfl
  | ok t₁ => exact foldlM_map_state ds (fun s d _ => s.settle_erase now depth d.jobId) t₁

theorem stampedBy_erase (now : Int) (e : RunEvent) :
    (e.stampedBy now).map eraseMark = e.stampedBy 0 := by
  simp only [RunEvent.stampedBy, List.map_append, List.map_cons, List.map_nil]
  congr 1
  refine (List.map_congr_left fun kv hkv => ?_).trans (List.map_id _)
  have hne : kv.1 ≠ processedByKey := by simpa using (List.mem_filter.mp hkv).2
  simp [eraseMark, hne]

theorem Db.stamp_erase (now : Int) (e : RunEvent) (t : Tables) :
    (Db.stamp now e t).erase = Db.stamp 0 e t.erase := by
  simp only [Db.stamp, Tables.setEvent, Tables.erase, List.map_map, Tables.mk.injEq, true_and]
  refine List.map_congr_left fun x _ => ?_
  simp only [Function.comp]
  have hid : x.erase.eventId = x.eventId := rfl
  rw [hid]
  split
  · simp [RunEvent.erase, stampedBy_erase]
  · rfl

/-- The body does the same up to stamp times, at any clock readings. -/
theorem Db.body_erase (libs : Libs) (now start : Int) (depth : Nat) (x : Db) (e : RunEvent) :
    (x.body libs now start depth e).map Db.erase = x.erase.body libs 0 0 depth e := by
  have hreached : x.erase.tables.reached e.jobId = (x.tables.reached e.jobId).map Job.erase :=
    x.tables.reached_erase _
  unfold Db.body
  rw [hreached, ← Db.continue_erase start]
  cases x.continue_ libs start e with
  | error err => rfl
  | ok y =>
    have hsettle := Db.settleAll_erase now depth e.jobId (x.tables.reached e.jobId) y.tables
    have htab : y.erase.tables = y.tables.erase := rfl
    simp only [Except.map, htab, ← hsettle]
    cases Db.settleAll now depth e.jobId (x.tables.reached e.jobId) y.tables with
    | error err => rfl
    | ok t =>
      simp only [← Db.stamp_erase now]
      rfl

theorem Db.bodies_erase (libs : Libs) (now start : Int) (depth : Nat) (es : List RunEvent) (x : Db) :
    (x.bodies libs now start depth es).map Db.erase = x.erase.bodies libs 0 0 depth es := by
  have h := foldlM_map_state (k := fun e : RunEvent => e) es
    (fun s e _ => Db.body_erase libs now start depth s e) x
  rwa [List.map_id'] at h

end Body

end TaskScheduler
