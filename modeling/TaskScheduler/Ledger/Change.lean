import Mathlib.Logic.Relation
import TaskScheduler.Db.Account
import TaskScheduler.Workers.RecurringWatcher

/-! The lifecycle of jobs and runs, without the SQL: what a transaction may do to the tables, one
change at a time.  A ledger is the tables and the sequences, with two notes that the database does
not hold: the jobs that still owe a settle check, and the events that are being processed.  A
transaction that runs at once is a path of changes; `Ledger.Transactions` proves it. -/

namespace TaskScheduler

namespace Tables

/-- The job has resident load. -/
def Executing (t : Tables) (jobId : Nat) : Prop :=
  ∃ r ∈ t.runs, r.jobId = jobId ∧ r.status.executing = true

def Active (t : Tables) (jobId : Nat) : Prop :=
  ∃ j ∈ t.jobs, j.jobId = jobId ∧ j.state = .active

def Cancelled (t : Tables) (jobId : Nat) : Prop :=
  ∃ j ∈ t.jobs, j.jobId = jobId ∧ j.state = .cancelled

/-- `jobId` is triggered by `parent`. -/
def Child (t : Tables) (parent jobId : Nat) : Prop :=
  ∃ j ∈ t.jobs, j.jobId = jobId ∧ j.triggerOnJobId = some parent

/-- `jobId` is an active job that `parent` triggers. -/
def ActiveChild (t : Tables) (parent jobId : Nat) : Prop :=
  ∃ j ∈ t.jobs, j.jobId = jobId ∧ j.triggerOnJobId = some parent ∧ j.state = .active

/-- What a settle check settles: an active job with no schedule of its own, no resident load, and no
active trigger. -/
def Exhausted (t : Tables) (jobId : Nat) : Prop :=
  ∃ j ∈ t.jobs, j.jobId = jobId ∧ j.state = .active ∧ j.cronExpr = none ∧
    ¬t.Executing jobId ∧ ∀ p, j.triggerOnJobId = some p → ¬t.Active p

def setJob (t : Tables) (id : Nat) (set : Job → Job) : Tables :=
  { t with jobs := t.jobs.map fun j => if j.jobId = id then set j else j }

def setRun (t : Tables) (id : Nat) (set : JobRun → JobRun) : Tables :=
  { t with runs := t.runs.map fun r => if r.runId = id then set r else r }

def setEvent (t : Tables) (id : Nat) (set : RunEvent → RunEvent) : Tables :=
  { t with events := t.events.map fun e => if e.eventId = id then set e else e }

end Tables

/-- The columns of a job agree: a recurring job has a schedule, a chained one has none, a schedule
is never completed, and a cancel is dated. -/
structure Job.Lifecycle (j : Job) : Prop where
  recurring : j.jobType = .recurring ↔ j.cronExpr.isSome = true
  chained : j.triggerOnJobId.isSome = true → j.cronExpr = none
  schedule : j.cronExpr.isSome = true → j.state ≠ .completed
  cancelled : j.state = .cancelled ↔ j.cancelledAt.isSome = true

/-- Keys are unique and the sequences are past them, references lead to rows, and a trigger is an
older job. -/
structure Coherent (t : Tables) (seq : Seq) : Prop where
  lifecycle : ∀ j ∈ t.jobs, j.Lifecycle
  jobs : JobKeys t.jobs seq.jobs
  runs : (t.runs.map (·.runId)).Nodup
  runs_below : ∀ r ∈ t.runs, r.runId < seq.runs
  events : (t.events.map (·.eventId)).Nodup
  events_below : ∀ e ∈ t.events, e.eventId < seq.events
  trigger : ∀ j ∈ t.jobs, ∀ p, j.triggerOnJobId = some p → p < j.jobId ∧ ∃ i ∈ t.jobs, i.jobId = p
  run_job : ∀ r ∈ t.runs, ∃ j ∈ t.jobs, j.jobId = r.jobId
  event_run : ∀ e ∈ t.events, ∃ r ∈ t.runs, r.runId = e.runId ∧ r.jobId = e.jobId

namespace Coherent

variable {t : Tables} {seq : Seq}

theorem job_eq (h : Coherent t seq) {a b : Job} (ha : a ∈ t.jobs) (hb : b ∈ t.jobs)
    (hid : a.jobId = b.jobId) : a = b :=
  h.jobs.eq_of_jobId ha hb hid

theorem run_eq (h : Coherent t seq) {a b : JobRun} (ha : a ∈ t.runs) (hb : b ∈ t.runs)
    (hid : a.runId = b.runId) : a = b :=
  List.inj_on_of_nodup_map h.runs ha hb hid

theorem event_eq (h : Coherent t seq) {a b : RunEvent} (ha : a ∈ t.events) (hb : b ∈ t.events)
    (hid : a.eventId = b.eventId) : a = b :=
  List.inj_on_of_nodup_map h.events ha hb hid

end Coherent

/-- The columns of a run that no transition changes. -/
structure JobRun.SameRun (r r' : JobRun) : Prop where
  runId : r'.runId = r.runId
  jobId : r'.jobId = r.jobId
  userId : r'.userId = r.userId
  scheduledAt : r'.scheduledAt = r.scheduledAt
  waitForRunId : r'.waitForRunId = r.waitForRunId

theorem JobRun.SameRun.refl (r : JobRun) : r.SameRun r := ⟨rfl, rfl, rfl, rfl, rfl⟩

/-- The transitions of a run, each with the event that records it. -/
inductive Transition : RunStatus → RunStatus → EventType → Prop
  | publish : Transition .pending .queued .queued
  | requeue : Transition .queued .queued .reenqueued
  | claim {s : RunStatus} (h : s.cancellable = true) : Transition s .running .started
  | succeed : Transition .running .succeeded .succeeded
  | fail : Transition .running .failed .failed
  | retry : Transition .running .retrying .retry
  | recover : Transition .running .queued .reenqueued
  | deadLetter : Transition .retrying .failed .failed
  | cancel {s : RunStatus} (h : s.cancellable = true) : Transition s .cancelled .cancelled

namespace Transition

variable {s s' : RunStatus} {type : EventType}

theorem executing (h : Transition s s' type) : s.executing = true := by
  cases h with
  | claim h | cancel h => exact RunStatus.executing_of_cancellable h
  | _ => rfl

theorem terminal_iff (h : Transition s s' type) : type.terminal = s'.terminal := by
  cases h <;> rfl

end Transition

/-- The tables with the sequences, the jobs that owe a settle check (`due`), and the events that are
being processed (`spent`). -/
structure Ledger where
  tables : Tables
  seq : Seq
  due : Nat → Prop
  spent : Nat → Prop

namespace Ledger

def addJob (start : Int) (row : Job) (L : Ledger) : Ledger :=
  { L with
    tables := { L.tables with jobs := L.tables.jobs ++ [storedJob L.seq start row] }
    seq := { L.seq with jobs := L.seq.jobs + 1 }
    due := fun id => L.due id ∨ id = L.seq.jobs }

def addRun (start : Int) (row : JobRun) (L : Ledger) : Ledger :=
  { L with
    tables := { L.tables with runs := L.tables.runs ++ [storedRun L.seq start row] }
    seq := { L.seq with runs := L.seq.runs + 1 } }

/-- A new event. -/
def log (start : Int) (row : RunEvent) (L : Ledger) : Ledger :=
  { L with
    tables := { L.tables with events := L.tables.events ++ [storedEvent L.seq start row] }
    seq := { L.seq with events := L.seq.events + 1 } }

def setJob (id : Nat) (set : Job → Job) (L : Ledger) : Ledger :=
  { L with tables := L.tables.setJob id set }

def setRun (id : Nat) (set : JobRun → JobRun) (L : Ledger) : Ledger :=
  { L with tables := L.tables.setRun id set }

/-- The cursor of an event is stamped, and it is no longer being processed. -/
def stamp (id : Nat) (by_ : List (String × Int)) (L : Ledger) : Ledger :=
  { L with
    tables := L.tables.setEvent id fun e => { e with processedBy := by_ }
    spent := fun x => L.spent x ∧ x ≠ id }

/-- The downstreams of a job owe a settle check. -/
def oweChildren (id : Nat) (L : Ledger) : Ledger :=
  { L with due := fun d => L.due d ∨ L.tables.Child id d }

/-- The job owes no settle check any more. -/
def clear (id : Nat) (L : Ledger) : Ledger := { L with due := fun d => L.due d ∧ d ≠ id }

/-- An event is taken up: its job owes a settle check, and so do the active downstreams of a job
that is not cancelled. -/
def mark (e : RunEvent) (L : Ledger) : Ledger :=
  { L with
    due := fun d => L.due d ∨ d = e.jobId ∨
      (L.tables.ActiveChild e.jobId d ∧ ¬L.tables.Cancelled e.jobId)
    spent := fun id => L.spent id ∨ id = e.eventId }

end Ledger

/-- Which changes a history may have: cancels, the repeated processing of an event, and the end of
the execution of a run. -/
structure Mode where
  cancels : Prop
  redelivers : Prop
  ends : Nat → Prop

/-- The zone of a job's schedule. -/
def Job.zone (j : Job) : String := if j.timezone = "" then "UTC" else j.timezone

/-- Why a run of `job` is created: its schedule starts, its previous run has ended, or a run of its
trigger has. -/
inductive Cause (m : Mode) (libs : Libs) (L : Ledger) (job : Job) (runAt : Int) : Option Nat → Prop
  | initial (hjob : job.triggerOnJobId = none) (hfirst : ∀ r ∈ L.tables.runs, r.jobId ≠ job.jobId) :
    Cause m libs L job runAt none
  | successor {cron : String} {e : RunEvent} {prev : JobRun} (hcron : job.cronExpr = some cron)
      (he : e ∈ L.tables.events) (hterminal : e.eventType.terminal = true)
      (hprev : prev ∈ L.tables.runs) (hrun : prev.runId = e.runId) (hjob : prev.jobId = job.jobId)
      (hnext : nextAfter libs cron job.zone (successorAnchor prev e.occurredAt) = some runAt) :
    Cause m libs L job runAt none
  | upstream {e : RunEvent} (he : e ∈ L.tables.events) (hterminal : e.eventType.terminal = true)
      (hnew : m.redelivers ∨ e.unprocessed = true) (hspent : L.spent e.eventId)
      (hdue : L.due e.jobId) (hjob : job.triggerOnJobId = some e.jobId)
      (hfires : triggersOn job.triggerOnStatus e.eventType = true) (hat : runAt = e.occurredAt) :
    Cause m libs L job runAt (some e.runId)

/-- Why the end of a run of its trigger creates no run of `job`. -/
inductive Skip (t : Tables) (e : RunEvent) (job : Job) : EventType → EventData → Prop
  | predicateMiss (h : triggersOn job.triggerOnStatus e.eventType = false) :
    Skip t e job .chainSkippedPredicateMiss
      (.predicateMiss job.jobId job.triggerOnStatus e.eventType)
  | slowConsumer (h : triggersOn job.triggerOnStatus e.eventType = true)
      (hbusy : t.Executing job.jobId) :
    Skip t e job .chainSkippedSlowConsumer (.slowConsumer job.jobId e.eventType)

def Seq.le (a b : Seq) : Prop := a.jobs ≤ b.jobs ∧ a.runs ≤ b.runs ∧ a.events ≤ b.events

theorem Seq.le_refl (a : Seq) : a.le a := ⟨le_rfl, le_rfl, le_rfl⟩

theorem Seq.le_trans {a b c : Seq} (h : a.le b) (h' : b.le c) : a.le c :=
  ⟨h.1.trans h'.1, h.2.1.trans h'.2.1, h.2.2.trans h'.2.2⟩

/-- One change of the ledger. -/
inductive Change (m : Mode) (libs : Libs) : Ledger → Ledger → Prop
  /-- Keys are used up by an insert that fails. -/
  | burn {L : Ledger} {seq : Seq} (h : L.seq.le seq) : Change m libs L { L with seq := seq }
  | addJob {L : Ledger} {start : Int} {row : Job} (hstate : row.state = .active)
      (hlife : row.Lifecycle) (hparent : ∀ p, row.triggerOnJobId = some p → L.tables.Active p) :
    Change m libs L (L.addJob start row)
  | spawn {L : Ledger} {start runAt : Int} {job entity : Job} {wait : Option Nat}
      (hjob : job ∈ L.tables.jobs) (hsame : entity.jobId = job.jobId) (hactive : job.state = .active)
      (hidle : ¬L.tables.Executing job.jobId)
      (hclash : L.tables.runs.any
        (storedRun L.seq start (.new entity runAt .pending wait)).clashes = false)
      (hcause : Cause m libs L job runAt wait) :
    Change m libs L ((L.addRun start (.new entity runAt .pending wait)).log start
      (.new L.seq.runs job.jobId .created none (some .pending) none))
  | move {L : Ledger} {start : Int} {r : JobRun} {set : JobRun → JobRun} {type : EventType}
      {data : Option EventData} (hdue : m.cancels ∨ ∀ id, ¬L.due id) (hr : r ∈ L.tables.runs)
      (hset : r.SameRun (set r)) (htrans : Transition r.status (set r).status type)
      (hends : r.status = .running → m.ends r.runId) :
    Change m libs L ((L.setRun r.runId set).log start
      (.new r.runId r.jobId type (some r.status) (some (set r).status) data))
  | touch {L : Ledger} {r : JobRun} {set : JobRun → JobRun} (hr : r ∈ L.tables.runs)
      (hset : r.SameRun (set r)) (hstatus : (set r).status = r.status) :
    Change m libs L (L.setRun r.runId set)
  | skip {L : Ledger} {start : Int} {e : RunEvent} {job : Job} {type : EventType} {data : EventData}
      (he : e ∈ L.tables.events) (hterminal : e.eventType.terminal = true)
      (hnew : m.redelivers ∨ e.unprocessed = true) (hspent : L.spent e.eventId)
      (hjob : job ∈ L.tables.jobs) (hchild : job.triggerOnJobId = some e.jobId)
      (hskip : Skip L.tables e job type data) :
    Change m libs L (L.log start (.new e.runId e.jobId type none none (some data)))
  | mark {L : Ledger} {e : RunEvent} (he : e ∈ L.tables.events)
      (hterminal : e.eventType.terminal = true) (hnew : m.redelivers ∨ e.unprocessed = true)
      (hfresh : ¬L.spent e.eventId) : Change m libs L (L.mark e)
  | stamp {L : Ledger} {id : Nat} {by_ : List (String × Int)} (hspent : L.spent id)
      (hkey : by_.any (fun kv => kv.1 == processedByKey) = true) :
    Change m libs L (L.stamp id by_)
  /-- A settle check on a job that is exhausted. -/
  | settle {L : Ledger} {id : Nat} {now : Int} (hdue : L.due id) (h : L.tables.Exhausted id) :
    Change m libs L (((L.setJob id (Job.settle now)).clear id).oweChildren id)
  /-- A settle check on a job that is not. -/
  | clear {L : Ledger} {id : Nat} (h : ¬L.tables.Exhausted id) : Change m libs L (L.clear id)
  /-- The executor's settle of a one-shot job, beside the terminal event of its run. -/
  | retire {L : Ledger} {now : Int} {j : Job} (hdue : ∀ id, ¬L.due id) (hj : j ∈ L.tables.jobs)
      (hactive : j.state = .active) (htype : j.jobType ≠ .recurring) (hfree : j.triggerOnJobId = none)
      (hrun : ∃ r ∈ L.tables.runs, r.jobId = j.jobId ∧ r.status.terminal = true)
      (hevent : ∃ e ∈ L.tables.events, e.jobId = j.jobId ∧ e.unprocessed = true ∧
        ¬L.spent e.eventId) :
    Change m libs L (L.setJob j.jobId (Job.settle now))
  | cancel {L : Ledger} {now : Int} {j : Job} (hmode : m.cancels) (hj : j ∈ L.tables.jobs)
      (hactive : j.state = .active) :
    Change m libs L ((L.setJob j.jobId (Job.cancel now)).oweChildren j.jobId)

/-- Changes one after another. -/
def Changes (m : Mode) (libs : Libs) : Ledger → Ledger → Prop := Relation.ReflTransGen (Change m libs)

theorem Changes.invariant {m : Mode} {libs : Libs} {I : Ledger → Prop}
    (step : ∀ L L', I L → Change m libs L L' → I L') {L L' : Ledger} (h : Changes m libs L L')
    (hI : I L) : I L' := by
  induction h with
  | refl => exact hI
  | tail _ hc ih => exact step _ _ ih hc

/-! ### Rows after a change -/

namespace Tables

variable {t : Tables} {id : Nat}

theorem mem_setJob {set : Job → Job} {j' : Job} :
    j' ∈ (t.setJob id set).jobs ↔ ∃ j ∈ t.jobs, (if j.jobId = id then set j else j) = j' :=
  List.mem_map

theorem mem_setRun {set : JobRun → JobRun} {r' : JobRun} :
    r' ∈ (t.setRun id set).runs ↔ ∃ r ∈ t.runs, (if r.runId = id then set r else r) = r' :=
  List.mem_map

theorem mem_setEvent {set : RunEvent → RunEvent} {e' : RunEvent} :
    e' ∈ (t.setEvent id set).events ↔
      ∃ e ∈ t.events, (if e.eventId = id then set e else e) = e' :=
  List.mem_map

end Tables

theorem Job.SameDef.jobId {c r : Job} (h : c.SameDef r) : c.jobId = r.jobId := by rw [h]

theorem Job.SameDef.timezone {c r : Job} (h : c.SameDef r) : c.timezone = r.timezone := by rw [h]

theorem Job.SameDef.triggerOnStatus {c r : Job} (h : c.SameDef r) :
    c.triggerOnStatus = r.triggerOnStatus := by rw [h]

theorem Job.SameDef.userId {c r : Job} (h : c.SameDef r) : c.userId = r.userId := by rw [h]

/-- A list that an update maps row by row keeps its keys if every row does. -/
theorem map_key_eq {α : Type} {key : α → Nat} {f : α → α} {l : List α}
    (h : ∀ a ∈ l, key (f a) = key a) : (l.map f).map key = l.map key := by
  rw [List.map_map]
  exact List.map_congr_left h

theorem Tables.nodup_setRun {t : Tables} (h : (t.runs.map (·.runId)).Nodup) (id : Nat)
    (set : JobRun → JobRun) (hset : ∀ r, (set r).runId = r.runId) :
    ((t.setRun id set).runs.map (·.runId)).Nodup := by
  have hkeys : (t.setRun id set).runs.map (·.runId) = t.runs.map (·.runId) :=
    map_key_eq fun r _ => by
      split
      · exact hset r
      · rfl
  exact hkeys ▸ h

theorem nodup_append_key {α : Type} {key : α → Nat} {l : List α} {a : α}
    (h : (l.map key).Nodup) (hnew : ∀ b ∈ l, key b < key a) : ((l ++ [a]).map key).Nodup := by
  rw [List.map_append, List.nodup_append]
  refine ⟨h, by simp, ?_⟩
  intro x hx y hy
  obtain ⟨b, hb, rfl⟩ := List.mem_map.mp hx
  have := hnew b hb
  simp only [List.map_cons, List.map_nil, List.mem_singleton] at hy
  omega

namespace Coherent

variable {t : Tables} {seq : Seq}

theorem burn {seq' : Seq} (h : Coherent t seq) (hle : seq.le seq') : Coherent t seq' where
  lifecycle := h.lifecycle
  jobs := ⟨h.jobs.nodup, fun j hj => (h.jobs.below j hj).trans_le hle.1⟩
  runs := h.runs
  runs_below r hr := (h.runs_below r hr).trans_le hle.2.1
  events := h.events
  events_below e he := (h.events_below e he).trans_le hle.2.2
  trigger := h.trigger
  run_job := h.run_job
  event_run := h.event_run

theorem setJob (h : Coherent t seq) {id : Nat} {set : Job → Job}
    (hset : ∀ j, (set j).jobId = j.jobId ∧ (set j).triggerOnJobId = j.triggerOnJobId)
    (hlife : ∀ j ∈ t.jobs, j.jobId = id → (set j).Lifecycle) :
    Coherent (t.setJob id set) seq := by
  have hid : ∀ j : Job, (if j.jobId = id then set j else j).jobId = j.jobId := by
    intro j
    split
    · exact (hset j).1
    · rfl
  have htr : ∀ j : Job,
      (if j.jobId = id then set j else j).triggerOnJobId = j.triggerOnJobId := by
    intro j
    split
    · exact (hset j).2
    · rfl
  have hmem : ∀ p, (∃ i ∈ t.jobs, i.jobId = p) → ∃ i ∈ (t.setJob id set).jobs, i.jobId = p := by
    rintro p ⟨i, hi, rfl⟩
    exact ⟨_, Tables.mem_setJob.mpr ⟨i, hi, rfl⟩, hid i⟩
  refine { h with
    lifecycle := ?_, jobs := ⟨?_, ?_⟩, trigger := ?_,
    run_job := fun r hr => hmem _ (h.run_job r hr) }
  · intro j' hj'
    obtain ⟨j, hj, rfl⟩ := Tables.mem_setJob.mp hj'
    split
    · exact hlife j hj ‹_›
    · exact h.lifecycle j hj
  · simp only [Tables.setJob, map_key_eq fun j _ => hid j]
    exact h.jobs.nodup
  · rintro j' hj'
    obtain ⟨j, hj, rfl⟩ := Tables.mem_setJob.mp hj'
    rw [hid j]
    exact h.jobs.below j hj
  · rintro j' hj' p hp
    obtain ⟨j, hj, rfl⟩ := Tables.mem_setJob.mp hj'
    rw [htr j] at hp
    obtain ⟨hlt, hex⟩ := h.trigger j hj p hp
    rw [hid j]
    exact ⟨hlt, hmem p hex⟩

theorem setRun (h : Coherent t seq) {r : JobRun} (hr : r ∈ t.runs) {set : JobRun → JobRun}
    (hset : r.SameRun (set r)) : Coherent (t.setRun r.runId set) seq := by
  have hat : ∀ x ∈ t.runs, (if x.runId = r.runId then set x else x).runId = x.runId ∧
      (if x.runId = r.runId then set x else x).jobId = x.jobId := by
    intro x hx
    split
    · next hid =>
      rw [h.run_eq hx hr hid]
      exact ⟨hset.runId, hset.jobId⟩
    · exact ⟨rfl, rfl⟩
  refine { h with runs := ?_, runs_below := ?_, run_job := ?_, event_run := ?_ }
  · simp only [Tables.setRun, map_key_eq fun x hx => (hat x hx).1]
    exact h.runs
  · intro x' hx'
    obtain ⟨x, hx, rfl⟩ := Tables.mem_setRun.mp hx'
    rw [(hat x hx).1]
    exact h.runs_below x hx
  · intro x' hx'
    obtain ⟨x, hx, rfl⟩ := Tables.mem_setRun.mp hx'
    rw [(hat x hx).2]
    exact h.run_job x hx
  · intro e he
    obtain ⟨x, hx, hrun, hjob⟩ := h.event_run e he
    exact ⟨_, Tables.mem_setRun.mpr ⟨x, hx, rfl⟩, (hat x hx).1.trans hrun,
      (hat x hx).2.trans hjob⟩

theorem setEvent (h : Coherent t seq) {id : Nat} {set : RunEvent → RunEvent}
    (hset : ∀ e, (set e).eventId = e.eventId ∧ (set e).runId = e.runId ∧ (set e).jobId = e.jobId) :
    Coherent (t.setEvent id set) seq := by
  have hid : ∀ e : RunEvent, (if e.eventId = id then set e else e).eventId = e.eventId := by
    intro e
    split
    · exact (hset e).1
    · rfl
  refine { h with events := ?_, events_below := ?_, event_run := ?_ }
  · simp only [Tables.setEvent, map_key_eq fun e _ => hid e]
    exact h.events
  · intro e' he'
    obtain ⟨e, he, rfl⟩ := Tables.mem_setEvent.mp he'
    rw [hid e]
    exact h.events_below e he
  · intro e' he'
    obtain ⟨e, he, rfl⟩ := Tables.mem_setEvent.mp he'
    obtain ⟨r, hr, hrun, hjob⟩ := h.event_run e he
    refine ⟨r, hr, ?_⟩
    split
    · rw [(hset e).2.1, (hset e).2.2]
      exact ⟨hrun, hjob⟩
    · exact ⟨hrun, hjob⟩

theorem addJob (h : Coherent t seq) {start : Int} {row : Job} (hlife : row.Lifecycle)
    (hparent : ∀ p, row.triggerOnJobId = some p → t.Active p) :
    Coherent { t with jobs := t.jobs ++ [storedJob seq start row] }
      { seq with jobs := seq.jobs + 1 } := by
  refine { h with lifecycle := ?_, jobs := ⟨?_, ?_⟩, trigger := ?_, run_job := ?_ }
  · intro j hj
    rcases List.mem_append.mp hj with hj | hj
    · exact h.lifecycle j hj
    · rw [List.mem_singleton.mp hj]
      exact ⟨hlife.recurring, hlife.chained, hlife.schedule, hlife.cancelled⟩
  · exact nodup_append_key h.jobs.nodup h.jobs.below
  · intro j hj
    rcases List.mem_append.mp hj with hj | hj
    · exact Nat.lt_succ_of_lt (h.jobs.below j hj)
    · rw [List.mem_singleton.mp hj]
      exact Nat.lt_succ_self _
  · intro j hj p hp
    rcases List.mem_append.mp hj with hj | hj
    · obtain ⟨hlt, i, hi, hid⟩ := h.trigger j hj p hp
      exact ⟨hlt, i, List.mem_append_left _ hi, hid⟩
    · rw [List.mem_singleton.mp hj] at hp ⊢
      obtain ⟨i, hi, rfl, -⟩ := hparent p hp
      exact ⟨h.jobs.below i hi, i, List.mem_append_left _ hi, rfl⟩
  · intro r hr
    obtain ⟨j, hj, hid⟩ := h.run_job r hr
    exact ⟨j, List.mem_append_left _ hj, hid⟩

theorem addRun (h : Coherent t seq) {start : Int} {row : JobRun}
    (hjob : ∃ j ∈ t.jobs, j.jobId = row.jobId) :
    Coherent { t with runs := t.runs ++ [storedRun seq start row] }
      { seq with runs := seq.runs + 1 } := by
  refine { h with runs := ?_, runs_below := ?_, run_job := ?_, event_run := ?_ }
  · exact nodup_append_key h.runs h.runs_below
  · intro r hr
    rcases List.mem_append.mp hr with hr | hr
    · exact Nat.lt_succ_of_lt (h.runs_below r hr)
    · rw [List.mem_singleton.mp hr]
      exact Nat.lt_succ_self _
  · intro r hr
    rcases List.mem_append.mp hr with hr | hr
    · exact h.run_job r hr
    · rw [List.mem_singleton.mp hr]
      exact hjob
  · intro e he
    obtain ⟨r, hr, hrun⟩ := h.event_run e he
    exact ⟨r, List.mem_append_left _ hr, hrun⟩

theorem log (h : Coherent t seq) {start : Int} {row : RunEvent}
    (hrun : ∃ r ∈ t.runs, r.runId = row.runId ∧ r.jobId = row.jobId) :
    Coherent { t with events := t.events ++ [storedEvent seq start row] }
      { seq with events := seq.events + 1 } := by
  refine { h with events := ?_, events_below := ?_, event_run := ?_ }
  · exact nodup_append_key h.events h.events_below
  · intro e he
    rcases List.mem_append.mp he with he | he
    · exact Nat.lt_succ_of_lt (h.events_below e he)
    · rw [List.mem_singleton.mp he]
      exact Nat.lt_succ_self _
  · intro e he
    rcases List.mem_append.mp he with he | he
    · exact h.event_run e he
    · rw [List.mem_singleton.mp he]
      exact hrun

end Coherent

theorem Job.Lifecycle.settle {j : Job} (h : j.Lifecycle) (hactive : j.state = .active)
    (hcron : j.cronExpr = none) (now : Int) : (j.settle now).Lifecycle where
  recurring := h.recurring
  chained := h.chained
  schedule hsome := by simp [Job.settle, hcron] at hsome
  cancelled := by
    have := h.cancelled
    simp only [hactive, reduceCtorEq, false_iff] at this
    simpa [Job.settle] using this

theorem Job.Lifecycle.cancel {j : Job} (h : j.Lifecycle) (now : Int) : (j.cancel now).Lifecycle where
  recurring := h.recurring
  chained := h.chained
  schedule _ := by simp [Job.cancel]
  cancelled := by simp [Job.cancel]

/-- Every change keeps the tables coherent. -/
theorem Change.coherent {m : Mode} {libs : Libs} {L L' : Ledger} (hc : Change m libs L L')
    (h : Coherent L.tables L.seq) : Coherent L'.tables L'.seq := by
  cases hc with
  | burn hle => exact h.burn hle
  | addJob hstate hlife hparent => exact h.addJob hlife hparent
  | spawn hjob hsame hactive hidle hclash hcause =>
    exact (h.addRun ⟨_, hjob, hsame.symm⟩).log
      ⟨_, List.mem_append_right _ (List.mem_singleton_self _), rfl, hsame⟩
  | @move _ r set _ _ hdue hr hset htrans hends =>
    refine (h.setRun hr hset).log ⟨set r, Tables.mem_setRun.mpr ⟨r, hr, if_pos rfl⟩, ?_⟩
    exact ⟨hset.runId, hset.jobId⟩
  | touch hr hset hstatus => exact h.setRun hr hset
  | skip he hterminal hnew hspent hjob hchild hskip =>
    obtain ⟨r, hr, hrun⟩ := h.event_run _ he
    exact h.log ⟨r, hr, hrun⟩
  | mark he hterminal hnew hfresh => exact h
  | stamp hspent hkey => exact h.setEvent fun e => ⟨rfl, rfl, rfl⟩
  | settle hdue hex =>
    obtain ⟨j, hj, hid, hs, hcron, -⟩ := hex
    refine h.setJob (fun j => ⟨rfl, rfl⟩) fun i hi hii => ?_
    rw [h.job_eq hi hj (hii.trans hid.symm)]
    exact (h.lifecycle j hj).settle hs hcron _
  | clear hex => exact h
  | @retire _ j hdue hj hactive htype hfree hrun hevent =>
    refine h.setJob (fun j => ⟨rfl, rfl⟩) fun i hi hii => ?_
    have hcron : j.cronExpr = none := by
      have := mt (h.lifecycle j hj).recurring.mpr htype
      simpa using this
    rw [h.job_eq hi hj hii]
    exact (h.lifecycle j hj).settle hactive hcron _
  | cancel hmode hj hactive =>
    exact h.setJob (fun j => ⟨rfl, rfl⟩) fun i hi _ => (h.lifecycle i hi).cancel _

theorem Changes.coherent {m : Mode} {libs : Libs} {L L' : Ledger} (h : Changes m libs L L')
    (hk : Coherent L.tables L.seq) : Coherent L'.tables L'.seq :=
  h.invariant (fun _ _ hI hc => hc.coherent hI) hk

end TaskScheduler
