import TaskScheduler.Batch.Stamp
import TaskScheduler.Lib.Sorted

/-! The queue of the consumer: the unprocessed terminal events in `event_id` order.  The body for an
event takes that event out of the queue and leaves the rest as it is. -/

namespace TaskScheduler

open Lib

/-- The unprocessed terminal events, oldest first. -/
def Tables.queue (t : Tables) : List RunEvent :=
  inOrder (·.eventId) (t.events.filter RunEvent.unprocessed)

theorem Tables.batch_eq (t : Tables) (n : Nat) : t.batch n = t.queue.take n := rfl

theorem Tables.mem_queue {t : Tables} {e : RunEvent} :
    e ∈ t.queue ↔ e ∈ t.events ∧ e.unprocessed = true := by
  rw [Tables.queue, (inOrder_perm _ _).mem_iff, List.mem_filter]

/-- The keys of jobs and events are unique and drawn from the sequences, and the run that an event
names was numbered before. -/
structure Db.Keyed (x : Db) : Prop where
  jobs : JobKeys x.tables.jobs x.seq.jobs
  events : (x.tables.events.map (·.eventId)).Nodup
  events_below : ∀ e ∈ x.tables.events, e.eventId < x.seq.events
  runs_below : ∀ e ∈ x.tables.events, e.runId < x.seq.runs

theorem Coherent.keyed {t : Tables} {seq : Seq} (h : Coherent t seq) : (⟨t, seq⟩ : Db).Keyed where
  jobs := h.jobs
  events := h.events
  events_below := h.events_below
  runs_below e he := by
    obtain ⟨r, hr, hid, -⟩ := h.event_run e he
    exact hid ▸ h.runs_below r hr

theorem Db.Keyed.queue_nodup {x : Db} (h : x.Keyed) :
    (x.tables.queue.map (·.eventId)).Nodup := by
  refine ((inOrder_perm _ _).map _).nodup_iff.mpr ?_
  exact h.events.sublist (List.filter_sublist.map _)

/-- New runs and new events that are not terminal, with keys from the sequences. -/
structure Db.Grows (x y : Db) : Prop where
  jobs : y.tables.jobs = x.tables.jobs
  seq_jobs : y.seq.jobs = x.seq.jobs
  seq_runs : x.seq.runs ≤ y.seq.runs
  seq_events : x.seq.events ≤ y.seq.events
  runs : ∃ rs, y.tables.runs = x.tables.runs ++ rs ∧ ∀ r ∈ rs, x.seq.runs ≤ r.runId
  events : ∃ es, y.tables.events = x.tables.events ++ es ∧ (es.map (·.eventId)).Nodup ∧
    ∀ e ∈ es, e.eventType.terminal = false ∧ x.seq.events ≤ e.eventId ∧
      e.eventId < y.seq.events ∧ e.runId < y.seq.runs

namespace Db

variable {libs : Libs} {start : Int} {e : RunEvent} {x y z : Db}

theorem Grows.refl (x : Db) : x.Grows x :=
  ⟨rfl, rfl, le_rfl, le_rfl, ⟨[], by simp⟩, ⟨[], by simp⟩⟩

theorem Grows.trans (h : x.Grows y) (h' : y.Grows z) : x.Grows z := by
  obtain ⟨rs, hrs, hrs'⟩ := h.runs
  obtain ⟨rs₁, hrs₁, hrs₁'⟩ := h'.runs
  obtain ⟨es, hes, hnd, hes'⟩ := h.events
  obtain ⟨es₁, hes₁, hnd₁, hes₁'⟩ := h'.events
  refine ⟨h'.jobs.trans h.jobs, h'.seq_jobs.trans h.seq_jobs, h.seq_runs.trans h'.seq_runs,
    h.seq_events.trans h'.seq_events, ⟨rs ++ rs₁, by rw [hrs₁, hrs, List.append_assoc], ?_⟩,
    ⟨es ++ es₁, by rw [hes₁, hes, List.append_assoc], ?_, ?_⟩⟩
  · intro r hr
    rcases List.mem_append.mp hr with hr | hr
    · exact hrs' r hr
    · exact h.seq_runs.trans (hrs₁' r hr)
  · rw [List.map_append, List.nodup_append]
    refine ⟨hnd, hnd₁, ?_⟩
    intro a ha b hb hab
    obtain ⟨c, hc, rfl⟩ := List.mem_map.mp ha
    obtain ⟨d, hd, rfl⟩ := List.mem_map.mp hb
    have h₁ := (hes' c hc).2.2.1
    have h₂ := (hes₁' d hd).2.1
    omega
  · intro a ha
    rcases List.mem_append.mp ha with ha | ha
    · obtain ⟨hterm, hge, hlt, hrun⟩ := hes' a ha
      exact ⟨hterm, hge, hlt.trans_le h'.seq_events, hrun.trans_le h'.seq_runs⟩
    · obtain ⟨hterm, hge, hlt, hrun⟩ := hes₁' a ha
      exact ⟨hterm, h.seq_events.trans hge, hlt, hrun⟩

theorem grows_spawn (x : Db) (row : JobRun) : x.Grows (x.spawn start row) := by
  unfold spawn
  split
  · exact .refl x
  split
  · exact ⟨rfl, rfl, Nat.le_succ _, le_rfl, ⟨[], by simp⟩, ⟨[], by simp⟩⟩
  · refine ⟨rfl, rfl, Nat.le_succ _, Nat.le_succ _, ⟨[storedRun x.seq start row], rfl, ?_⟩,
      ⟨[storedEvent x.seq start (.new x.seq.runs row.jobId .created none (some row.status) none)],
        rfl, by simp, ?_⟩⟩
    · simp [storedRun]
    · simp [storedEvent, RunEvent.new, EventType.terminal, View.spawn, View.write, View.nextRun,
        View.nextEvent, Db.view]

theorem grows_log (x : Db) {row : RunEvent} (h : row.eventType.terminal = false)
    (hrun : row.runId < x.seq.runs) : x.Grows (x.log start row) := by
  refine ⟨rfl, rfl, le_rfl, Nat.le_succ _, ⟨[], by simp [log, View.log, View.write, View.nextEvent,
    Write.apply, Db.view]⟩, ⟨[storedEvent x.seq start row], rfl, by simp, ?_⟩⟩
  simp [storedEvent, h, hrun, log, View.log, View.write, View.nextEvent, Db.view]

theorem grows_handle (x : Db) (d : Job) (he : e.runId < x.seq.runs) :
    x.Grows (x.handle start e d) := by
  unfold handle
  split
  · exact x.grows_log rfl he
  split
  · exact x.grows_log rfl he
  · exact x.grows_spawn _

theorem grows_handleAll (ds : List Job) (x : Db) (he : e.runId < x.seq.runs) :
    x.Grows (ds.foldl (handle start e) x) := by
  induction ds generalizing x with
  | nil => exact .refl x
  | cons d ds ih =>
    have h : x.Grows (x.handle start e d) := x.grows_handle d he
    exact h.trans (ih _ (he.trans_le h.seq_runs))

theorem grows_recur {job : Job} (h : x.recur libs start e job = .ok y) : x.Grows y := by
  unfold recur at h
  split at h
  · cases h
    exact .refl x
  split at h
  · cases h
    exact .refl x
  split at h
  · split at h
    · cases h
    split at h
    · cases h
    · cases h
      exact x.grows_spawn _
  · cases h

theorem grows_continue (he : e.runId < x.seq.runs) (h : x.continue_ libs start e = .ok y) :
    x.Grows y := by
  unfold continue_ at h
  split at h
  · cases h
    exact grows_handleAll _ x he
  · next r hr =>
    cases hrec : x.recur libs start e r with
    | error err =>
      rw [hrec] at h
      cases h
    | ok z =>
      rw [hrec] at h
      cases h
      have hz := grows_recur hrec
      exact hz.trans (grows_handleAll _ z (he.trans_le hz.seq_runs))

/-- What the body for an event leaves behind. -/
structure Done (now : Int) (e : RunEvent) (x z y : Db) : Prop where
  grows : x.Grows z
  seq : y.seq = z.seq
  jobs : y.tables.jobs.map Job.frozen = x.tables.jobs.map Job.frozen
  runs : y.tables.runs = z.tables.runs
  events : y.tables.events = z.tables.events.map fun a =>
    if a.eventId = e.eventId then { a with processedBy := e.stampedBy now } else a

theorem body_done {now : Int} {depth : Nat} (he : e.runId < x.seq.runs)
    (h : x.body libs now start depth e = .ok y) : ∃ z, Done now e x z y := by
  obtain ⟨z, t, hcont, ht, rfl⟩ := body_ok h
  have hz := grows_continue he hcont
  refine ⟨z, hz, rfl, ?_, ht.runs, ?_⟩
  · rw [← hz.jobs]
    exact ht.jobs
  · show (stamp now e t).events = _
    rw [stamp, Tables.setEvent, ht.events]

theorem Done.keyed {now : Int} (h : Done now e x z y) (hx : x.Keyed) : y.Keyed := by
  obtain ⟨es, hes, hnd, hnew⟩ := h.grows.events
  have hkeys : y.tables.events.map (·.eventId) = z.tables.events.map (·.eventId) := by
    rw [h.events, List.map_map]
    refine List.map_congr_left fun a _ => ?_
    simp only [Function.comp]
    split <;> rfl
  have hjobs : y.tables.jobs.map (·.jobId) = x.tables.jobs.map (·.jobId) := by
    have := congrArg (List.map Job.jobId) h.jobs
    rwa [List.map_map, List.map_map] at this
  have hbelow : ∀ a ∈ z.tables.events, a.eventId < z.seq.events ∧ a.runId < z.seq.runs := by
    intro a ha
    rw [hes] at ha
    rcases List.mem_append.mp ha with ha | ha
    · exact ⟨(hx.events_below a ha).trans_le h.grows.seq_events,
        (hx.runs_below a ha).trans_le h.grows.seq_runs⟩
    · exact (hnew a ha).2.2
  have hpick : ∀ a ∈ y.tables.events, ∃ b ∈ z.tables.events,
      a.eventId = b.eventId ∧ a.runId = b.runId := by
    intro a ha
    rw [h.events, List.mem_map] at ha
    obtain ⟨b, hb, rfl⟩ := ha
    refine ⟨b, hb, ?_⟩
    split <;> exact ⟨rfl, rfl⟩
  constructor
  · refine ⟨by rw [hjobs]; exact hx.jobs.nodup, fun j hj => ?_⟩
    rw [h.seq, h.grows.seq_jobs]
    have hmem : j.jobId ∈ x.tables.jobs.map (·.jobId) := hjobs ▸ List.mem_map_of_mem hj
    obtain ⟨i, hi, hid⟩ := List.mem_map.mp hmem
    exact hid ▸ hx.jobs.below i hi
  · rw [hkeys, hes, List.map_append, List.nodup_append]
    refine ⟨hx.events, hnd, ?_⟩
    intro a ha b hb hab
    obtain ⟨c, hc, rfl⟩ := List.mem_map.mp ha
    obtain ⟨d, hd, rfl⟩ := List.mem_map.mp hb
    have h₁ := hx.events_below c hc
    have h₂ := (hnew d hd).2.1
    omega
  · intro a ha
    obtain ⟨b, hb, hid, -⟩ := hpick a ha
    rw [hid, h.seq]
    exact (hbelow b hb).1
  · intro a ha
    obtain ⟨b, hb, -, hid⟩ := hpick a ha
    rw [hid, h.seq]
    exact (hbelow b hb).2

/-- The body takes its event out of the queue. -/
theorem Done.queue {now : Int} (h : Done now e x z y) (hx : x.Keyed) :
    y.tables.queue = x.tables.queue.filter fun a => a.eventId != e.eventId := by
  obtain ⟨es, hes, -, hnew⟩ := h.grows.events
  have hstamp : ∀ a : RunEvent,
      (if a.eventId = e.eventId then { a with processedBy := e.stampedBy now } else a).unprocessed =
        (a.unprocessed && a.eventId != e.eventId) := by
    intro a
    by_cases ha : a.eventId = e.eventId
    · simp [ha, RunEvent.unprocessed, RunEvent.hasKey, stampedBy_hasKey]
    · simp [ha]
  have hold : y.tables.events.filter RunEvent.unprocessed =
      (x.tables.events.filter RunEvent.unprocessed).filter fun a => a.eventId != e.eventId := by
    have hnone : es.filter (fun a => a.unprocessed && a.eventId != e.eventId) = [] := by
      refine List.filter_eq_nil_iff.mpr fun a ha => ?_
      simp [RunEvent.unprocessed, (hnew a ha).1]
    rw [h.events, List.filter_map, List.filter_filter]
    have hcomp : (RunEvent.unprocessed ∘ fun a : RunEvent =>
        if a.eventId = e.eventId then { a with processedBy := e.stampedBy now } else a) =
          fun a => a.unprocessed && a.eventId != e.eventId := by
      funext a
      exact hstamp a
    rw [hcomp, hes, List.filter_append, hnone, List.append_nil]
    refine (List.map_congr_left fun a ha => ?_).trans ((List.map_id _).trans ?_)
    · rw [List.mem_filter, Bool.and_eq_true, bne_iff_ne] at ha
      exact if_neg ha.2.2
    · refine List.filter_congr fun a _ => Bool.and_comm _ _
  rw [Tables.queue, hold]
  exact inOrder_filter (hx.events.sublist (List.filter_sublist.map _)) _

/-- The body for the first event of the queue leaves the rest of it. -/
theorem body_queue {now : Int} {depth : Nat} {rest : List RunEvent} (hx : x.Keyed)
    (hq : x.tables.queue = e :: rest) (h : x.body libs now start depth e = .ok y) :
    (∃ z, Done now e x z y) ∧ y.Keyed ∧ y.tables.queue = rest := by
  have he : e ∈ x.tables.queue := hq ▸ List.mem_cons_self
  obtain ⟨z, hdone⟩ := body_done (hx.runs_below e (Tables.mem_queue.mp he).1) h
  refine ⟨⟨z, hdone⟩, hdone.keyed hx, ?_⟩
  have hnd := hx.queue_nodup
  rw [hq] at hnd
  rw [hdone.queue hx, hq]
  exact filter_key_ne_head hnd

theorem bodies_cons {now : Int} {depth : Nat} {es : List RunEvent} :
    x.bodies libs now start depth (e :: es) = .ok y ↔
      ∃ x₁, x.body libs now start depth e = .ok x₁ ∧ x₁.bodies libs now start depth es = .ok y := by
  unfold bodies
  rw [List.foldlM_cons]
  cases x.body libs now start depth e with
  | error err => simp [bind, Except.bind]
  | ok x₁ => simp [bind, Except.bind]

/-- The bodies of the first events of the queue leave the rest of it. -/
theorem bodies_queue {now : Int} {depth : Nat} {es rest : List RunEvent} (hx : x.Keyed)
    (hq : x.tables.queue = es ++ rest) (h : x.bodies libs now start depth es = .ok y) :
    y.Keyed ∧ y.tables.queue = rest := by
  induction es generalizing x with
  | nil =>
    cases h
    exact ⟨hx, hq⟩
  | cons e es ih =>
    obtain ⟨x₁, hb, h⟩ := bodies_cons.mp h
    obtain ⟨-, hk, hq₁⟩ := body_queue hx hq hb
    exact ih hk hq₁ h

end Db

end TaskScheduler
