import TaskScheduler.Batch.Drain

/-! Events whose continuation raises.  A batch that holds one is rolled back as a whole and taken up
again by the next call, so an event is processed just when its batch comes before the first batch
with such an event. -/

namespace TaskScheduler

open Lib

/-- Whether the continuation of an event raises: its job is recurring and not cancelled, and its run
is missing, its zone does not load, or its schedule has no further occurrence. -/
def Tables.poison (libs : Libs) (t : Tables) (e : RunEvent) : Bool :=
  (t.job? e.jobId).any fun job =>
    job.cronExpr.any fun cronExpr =>
      job.cancelledAt.isNone &&
        match t.runs.filter fun r => r.runId == e.runId && r.jobId == job.jobId with
        | [prevRun] =>
          !libs.zoneInfo job.zone ||
            (nextAfter libs cronExpr job.zone (successorAnchor prevRun e.occurredAt)).isNone
        | _ => true

/-- No chain of triggers from job `id` is `depth` jobs long. -/
def Tables.Shallow (t : Tables) : Nat → Nat → Prop
  | 0, _ => False
  | depth + 1, id => ∀ d ∈ t.children id, t.Shallow depth d.jobId

/-! ### The settle cascade of a shallow chain ends -/

theorem Tables.mem_children {t t' : Tables}
    (h : t'.jobs.map Job.frozen = t.jobs.map Job.frozen) {id : Nat} {d' : Job}
    (hd' : d' ∈ t'.children id) : ∃ d ∈ t.children id, d.jobId = d'.jobId := by
  rw [Tables.children, List.mem_filter, beq_iff_eq] at hd'
  obtain ⟨d, hd, hfrozen⟩ := List.mem_map.mp (h ▸ List.mem_map_of_mem hd'.1 :
    d'.frozen ∈ t.jobs.map Job.frozen)
  have hid : d.frozen.jobId = d'.frozen.jobId := by rw [hfrozen]
  have htrigger : d.frozen.triggerOnJobId = d'.frozen.triggerOnJobId := by rw [hfrozen]
  refine ⟨d, ?_, hid⟩
  rw [Tables.children, List.mem_filter, beq_iff_eq]
  exact ⟨hd, htrigger.trans hd'.2⟩

theorem Tables.Shallow.frozen {t t' : Tables}
    (h : t'.jobs.map Job.frozen = t.jobs.map Job.frozen) {depth id : Nat}
    (hs : t.Shallow depth id) : t'.Shallow depth id := by
  induction depth generalizing id with
  | zero => exact hs
  | succ depth ih =>
    intro d' hd'
    obtain ⟨d, hd, hid⟩ := Tables.mem_children h hd'
    rw [← hid]
    exact ih (hs d hd)

theorem Tables.settle_ok (now : Int) {depth id : Nat} {t : Tables} (hs : t.Shallow depth id) :
    ∃ t', t.settle now depth id = .ok t' := by
  induction depth generalizing id t with
  | zero => exact hs.elim
  | succ depth ih =>
    simp only [Tables.settle]
    split
    · have hframe := t.setJob_frozen now id
      refine foldlM_ok (I := fun s => s.jobs.map Job.frozen = t.jobs.map Job.frozen)
        (fun s d hd hI => ?_) hframe
      obtain ⟨d₀, hd₀, hid⟩ := Tables.mem_children hframe hd
      obtain ⟨s', hs'⟩ := ih ((hs d₀ hd₀).frozen hI)
      rw [hid] at hs'
      exact ⟨s', hs', (Tables.settle_unsettled hs').jobs.trans hI⟩
    · exact ⟨t, rfl⟩

namespace Db

variable {cfg : Config} {libs : Libs} {n : Nat} {now start : Int} {pick : Nat → Bool} {depth : Nat}
  {e : RunEvent} {x y z : Db}

/-- No chain of triggers is as long as the interpreter's recursion limit. -/
def Shallow (depth : Nat) (x : Db) : Prop := ∀ id, x.tables.Shallow depth id

theorem settleAll_ok (now : Int) (id : Nat) (ds : List Job) {t : Tables} (hs : ∀ id, t.Shallow depth id) :
    ∃ t', settleAll now depth id ds t = .ok t' := by
  obtain ⟨t₁, ht₁⟩ := Tables.settle_ok now (hs id)
  unfold settleAll
  rw [ht₁]
  refine foldlM_ok (I := fun s => s.jobs.map Job.frozen = t.jobs.map Job.frozen)
    (fun s d _ hI => ?_) (Tables.settle_unsettled ht₁).jobs
  obtain ⟨s', hs'⟩ := Tables.settle_ok now ((hs d.jobId).frozen hI)
  exact ⟨s', hs', (Tables.settle_unsettled hs').jobs.trans hI⟩

/-- The continuation of an event raises just when it is poison. -/
theorem continue_ok_iff (start : Int) :
    (∃ y, x.continue_ libs start e = .ok y) ↔ x.tables.poison libs e = false := by
  unfold continue_ Tables.poison
  cases x.tables.job? e.jobId with
  | none => simp
  | some job =>
    simp only [Option.any_some]
    unfold recur
    cases job.cronExpr with
    | none => simp [Except.map]
    | some cron =>
      simp only [Option.any_some]
      by_cases hcan : job.cancelledAt.isSome = true
      · have hnone : job.cancelledAt.isNone = false := by
          rw [← Option.not_isSome, hcan]
          rfl
        simp [hcan, hnone, Except.map]
      have hnone : job.cancelledAt.isNone = true := by
        rw [← Option.not_isSome]
        simpa using hcan
      rw [if_neg hcan, hnone, Bool.true_and]
      generalize x.tables.runs.filter (fun r => r.runId == e.runId && r.jobId == job.jobId) = rows
      rcases rows with _ | ⟨prev, _ | ⟨_, _⟩⟩
      · simp [Except.map]
      · dsimp only
        cases libs.zoneInfo job.zone with
        | false => simp [Except.map]
        | true =>
          cases nextAfter libs cron job.zone (successorAnchor prev e.occurredAt) with
          | none => simp [Except.map]
          | some runAt => simp [Except.map]
      · simp [Except.map]

theorem body_ok_iff (now start : Int) (hshallow : x.Shallow depth) :
    (∃ y, x.body libs now start depth e = .ok y) ↔ x.tables.poison libs e = false := by
  rw [← continue_ok_iff start]
  constructor
  · rintro ⟨y, hy⟩
    obtain ⟨z, t, hz, -⟩ := body_ok hy
    exact ⟨z, hz⟩
  · rintro ⟨z, hz⟩
    have hjobs := continue_jobs hz
    obtain ⟨t, ht⟩ := settleAll_ok now e.jobId (x.tables.reached e.jobId)
      (t := z.tables) (fun id => (hshallow id).frozen (by rw [hjobs]))
    exact ⟨{ z with tables := stamp now e t }, by rw [body, hz]; dsimp only; rw [ht]; rfl⟩

/-- The body for one event makes no other event poison, and no poison harmless. -/
theorem Done.poison (h : Done now e x z y) {a : RunEvent}
    (ha : a.runId < x.seq.runs) : y.tables.poison libs a = x.tables.poison libs a := by
  obtain ⟨rs, hrs, hnew⟩ := h.grows.runs
  have hjob : (y.tables.job? a.jobId).map Job.frozen = (x.tables.job? a.jobId).map Job.frozen := by
    have hfind := congrArg (List.find? fun j => j.jobId == a.jobId) h.jobs
    simp only [List.find?_map] at hfind
    exact hfind
  have hruns : ∀ id, y.tables.runs.filter (fun r => r.runId == a.runId && r.jobId == id) =
      x.tables.runs.filter fun r => r.runId == a.runId && r.jobId == id := by
    intro id
    have hnone : rs.filter (fun r => r.runId == a.runId && r.jobId == id) = [] := by
      refine List.filter_eq_nil_iff.mpr fun r hr hp => ?_
      simp only [Bool.and_eq_true, beq_iff_eq] at hp
      have := hnew r hr
      omega
    rw [h.runs, hrs, List.filter_append, hnone, List.append_nil]
  -- the columns that decide are the frozen ones
  have hcols : ∀ t : Tables, t.poison libs a = ((t.job? a.jobId).map Job.frozen).any fun job =>
      job.cronExpr.any fun cronExpr =>
        job.cancelledAt.isNone &&
          match t.runs.filter fun r => r.runId == a.runId && r.jobId == job.jobId with
          | [prevRun] =>
            !libs.zoneInfo job.zone ||
              (nextAfter libs cronExpr job.zone (successorAnchor prevRun a.occurredAt)).isNone
          | _ => true := by
    intro t
    rw [Option.any_map]
    rfl
  rw [hcols, hcols, hjob]
  simp only [hruns]

theorem Done.shallow (h : Done now e x z y) (hshallow : x.Shallow depth) : y.Shallow depth :=
  fun id => (hshallow id).frozen h.jobs

/-- The bodies of the first events of the queue end just when none of them is poison. -/
theorem bodies_ok_iff (libs : Libs) (now start : Int) {es rest : List RunEvent} (hx : x.Keyed) (hshallow : x.Shallow depth)
    (hq : x.tables.queue = es ++ rest) :
    (∃ y, x.bodies libs now start depth es = .ok y) ↔
      ∀ e ∈ es, x.tables.poison libs e = false := by
  induction es generalizing x with
  | nil => exact ⟨fun _ => by simp, fun _ => ⟨x, rfl⟩⟩
  | cons e es ih =>
    rw [List.forall_mem_cons, ← body_ok_iff now start hshallow]
    -- what the body for `e` leaves says the same of the events after it
    have hrest : ∀ x₁, x.body libs now start depth e = .ok x₁ →
        ((∃ y, x₁.bodies libs now start depth es = .ok y) ↔
          ∀ a ∈ es, x.tables.poison libs a = false) := by
      intro x₁ hb
      obtain ⟨⟨z, hdone⟩, hk, hq₁⟩ := body_queue hx hq hb
      rw [ih hk (hdone.shallow hshallow) hq₁]
      refine forall₂_congr fun a ha => ?_
      have hin : a ∈ x.tables.queue := by
        rw [hq]
        exact List.mem_cons_of_mem _ (List.mem_append_left _ ha)
      rw [hdone.poison (hx.runs_below a (Tables.mem_queue.mp hin).1)]
    constructor
    · rintro ⟨y, hy⟩
      obtain ⟨x₁, hb, hy⟩ := bodies_cons.mp hy
      exact ⟨⟨x₁, hb⟩, (hrest x₁ hb).mp ⟨y, hy⟩⟩
    · rintro ⟨⟨x₁, hb⟩, hes⟩
      obtain ⟨y, hy⟩ := (hrest x₁ hb).mpr hes
      exact ⟨y, bodies_cons.mpr ⟨x₁, hb, hy⟩⟩

/-! ### Repeated calls -/

/-- `y` is reached from `x` by `m` calls, whether they return or raise. -/
inductive Ticks (cfg : Config) (n : Nat) (x : Db) : Nat → Db → Prop
  | zero : Ticks cfg n x 0 x
  | tick {m : Nat} {y z : Db} {res : Except Err Nat} {now start : Int} {pick : Nat → Bool}
      (hs : Ticks cfg n x m y) (h : y.poll cfg n now start pick = some (res, z)) :
      Ticks cfg n x (m + 1) z

/-- The continuation of an event, in a transaction of its own, raises. -/
def Raises (cfg : Config) (x : Db) (e : RunEvent) : Prop :=
  ∃ now start pick err y,
    x.alone start pick (processEvent cfg.libs now cfg.depth e) = some (.error err, y)

/-- The continuations of the events, each in a transaction of its own. -/
inductive EachAlone (cfg : Config) : List RunEvent → Db → Db → Prop
  | nil {x : Db} : EachAlone cfg [] x x
  | cons {e : RunEvent} {es : List RunEvent} {x y z : Db} {now start : Int} {pick : Nat → Bool}
      (h : x.alone start pick (processEvent cfg.libs now cfg.depth e) = some (.ok (), y))
      (hs : EachAlone cfg es y z) : EachAlone cfg (e :: es) x z

/-- The row of event `id` carries the consumer's stamp. -/
def Stamped (id : Nat) (x : Db) : Prop :=
  ∃ a ∈ x.tables.events, a.eventId = id ∧ a.hasKey processedByKey = true

/-- Poison-event isolation: every event whose continuation does not raise is stamped by enough
calls; and whatever the number of calls, they have had the effects of whole continuations, those of
the events that are no longer in the queue. -/
structure Isolates (cfg : Config) (n : Nat) (x : Db) : Prop where
  stamps : ∀ e ∈ x.tables.queue, ¬Raises cfg x e →
    ∃ m₀, ∀ m ≥ m₀, ∀ y, Ticks cfg n x m y → y.Stamped e.eventId
  whole : ∀ m y, Ticks cfg n x m y → ∃ k w, EachAlone cfg (x.tables.queue.take k) x w ∧
    y.tables.erase = w.tables.erase ∧ y.tables.queue = x.tables.queue.drop k

/-- Every event that is not poison is in an earlier batch of `n` than every event that is. -/
def Shielded (libs : Libs) (n : Nat) (x : Db) : Prop :=
  ∀ (j : Nat) (e : RunEvent), x.tables.queue[j]? = some e → x.tables.poison libs e = false →
    0 < n ∧ ∀ (i : Nat) (p : RunEvent), x.tables.queue[i]? = some p →
      x.tables.poison libs p = true → j / n < i / n

theorem body_ran (cfg : Config) (now start : Int) (pick : Nat → Bool) (e : RunEvent)
    (hx : x.Keyed) :
    Ran x ((x.body cfg.libs now start cfg.depth e).map fun y => ((), y))
      (x.alone start pick (processEvent cfg.libs now cfg.depth e)) := by
  refine alone_ran hx ?_
  exact wp_body hx.jobs.nodup (fun y hy => ⟨y, congrArg (Except.map _) hy, rfl⟩)
    fun err v' h => congrArg (Except.map _) h

theorem raises_iff (hx : x.Keyed) (hshallow : x.Shallow cfg.depth) :
    Raises cfg x e ↔ x.tables.poison cfg.libs e = true := by
  rw [← Bool.not_eq_false, ← not_iff_not, not_not]
  constructor
  · intro h
    rw [← body_ok_iff 0 0 hshallow]
    have hran := body_ran cfg 0 0 (fun _ => true) e hx
    cases hb : x.body cfg.libs 0 0 cfg.depth e with
    | ok y => exact ⟨y, rfl⟩
    | error err =>
      rw [hb] at hran
      generalize hr : x.alone 0 _ _ = r at hran
      cases hran with
      | ok hok => cases hok
      | error _ _ => exact absurd ⟨0, 0, _, _, _, hr⟩ h
  · rintro h ⟨now, start, pick, err, y, hr⟩
    obtain ⟨y', hy'⟩ := (body_ok_iff now start hshallow).mpr h
    have hran := body_ran cfg now start pick e hx
    rw [hy', hr] at hran
    cases hran with
    | error herr _ => cases herr

/-- The events stay, with their stamps, and the event of the body gets one. -/
theorem Done.event (h : Done now e x z y) {a : RunEvent} (ha : a ∈ x.tables.events) :
    ∃ b ∈ y.tables.events, b.eventId = a.eventId ∧
      (a.hasKey processedByKey = true ∨ a.eventId = e.eventId → b.hasKey processedByKey = true) := by
  obtain ⟨es, hes, -⟩ := h.grows.events
  have hmem := List.mem_map_of_mem (f := fun a : RunEvent =>
    if a.eventId = e.eventId then { a with processedBy := e.stampedBy now } else a)
    (hes ▸ List.mem_append_left es ha : a ∈ z.tables.events)
  rw [← h.events] at hmem
  refine ⟨_, hmem, ?_, fun hkey => ?_⟩
  · split <;> rfl
  · split
    · exact stampedBy_hasKey now e
    · next hne => exact hkey.resolve_right hne

theorem Done.stamped (h : Done now e x z y) {id : Nat} (hs : x.Stamped id) : y.Stamped id := by
  obtain ⟨a, ha, hid, hkey⟩ := hs
  obtain ⟨b, hb, hba, hstamp⟩ := h.event ha
  exact ⟨b, hb, hba.trans hid, hstamp (.inl hkey)⟩

theorem Done.stamps (h : Done now e x z y) (he : e ∈ x.tables.events) : y.Stamped e.eventId := by
  obtain ⟨b, hb, hba, hstamp⟩ := h.event he
  exact ⟨b, hb, hba, hstamp (.inr rfl)⟩

theorem bodies_stamped {es rest : List RunEvent} (hx : x.Keyed) (hq : x.tables.queue = es ++ rest)
    (h : x.bodies libs now start depth es = .ok y) :
    (∀ id, x.Stamped id → y.Stamped id) ∧ ∀ e ∈ es, y.Stamped e.eventId := by
  induction es generalizing x with
  | nil =>
    cases h
    exact ⟨fun _ => id, by simp⟩
  | cons e es ih =>
    obtain ⟨x₁, hb, h⟩ := bodies_cons.mp h
    obtain ⟨⟨z, hdone⟩, hk, hq₁⟩ := body_queue hx hq hb
    obtain ⟨hold, hnew⟩ := ih hk hq₁ h
    refine ⟨fun id hid => hold id (hdone.stamped hid), fun a ha => ?_⟩
    rcases List.mem_cons.mp ha with rfl | ha
    · refine hold _ (hdone.stamps (Tables.mem_queue.mp ?_).1)
      exact hq ▸ List.mem_cons_self
    · exact hnew a ha

theorem bodies_frame {es rest : List RunEvent} (hx : x.Keyed) (hq : x.tables.queue = es ++ rest)
    (h : x.bodies libs now start depth es = .ok y) :
    (∀ a, a.runId < x.seq.runs → y.tables.poison libs a = x.tables.poison libs a) ∧
      x.seq.runs ≤ y.seq.runs ∧ (x.Shallow depth → y.Shallow depth) := by
  induction es generalizing x with
  | nil =>
    cases h
    exact ⟨fun _ _ => rfl, le_rfl, id⟩
  | cons e es ih =>
    obtain ⟨x₁, hb, h⟩ := bodies_cons.mp h
    obtain ⟨⟨z, hdone⟩, hk, hq₁⟩ := body_queue hx hq hb
    have hseq : x.seq.runs ≤ x₁.seq.runs := by
      rw [hdone.seq]
      exact hdone.grows.seq_runs
    obtain ⟨hpoison, hle, hshallow⟩ := ih hk hq₁ h
    exact ⟨fun a ha => (hpoison a (ha.trans_le hseq)).trans (hdone.poison ha), hseq.trans hle,
      fun hs => hshallow (hdone.shallow hs)⟩

theorem eachAlone_of_bodies {es rest : List RunEvent} (hx : x.Keyed)
    (hq : x.tables.queue = es ++ rest) (h : x.bodies cfg.libs 0 0 cfg.depth es = .ok y) :
    EachAlone cfg es x y := by
  induction es generalizing x with
  | nil =>
    cases h
    exact .nil
  | cons e es ih =>
    obtain ⟨x₁, hb, h⟩ := bodies_cons.mp h
    obtain ⟨-, hk, hq₁⟩ := body_queue hx hq hb
    have hran := body_ran cfg 0 0 (fun _ => true) e hx
    rw [hb] at hran
    generalize hr : x.alone 0 _ _ = r at hran
    cases hran with
    | ok hok =>
      cases hok
      exact .cons hr (ih hk hq₁ h)
    | error herr _ => cases herr

theorem EachAlone.append {es es' : List RunEvent} (h : EachAlone cfg es x y)
    (h' : EachAlone cfg es' y z) : EachAlone cfg (es ++ es') x z := by
  induction h with
  | nil => exact h'
  | cons hcall _ ih => exact .cons hcall (ih h')

theorem Keyed.burn (hx : x.Keyed) {seq : Seq} (hle : x.seq.le seq) :
    ({ x with seq := seq } : Db).Keyed where
  jobs := ⟨hx.jobs.nodup, fun j hj => (hx.jobs.below j hj).trans_le hle.1⟩
  events := hx.events
  events_below e he := (hx.events_below e he).trans_le hle.2.2
  runs_below e he := (hx.runs_below e he).trans_le hle.2.1

/-- After `m` calls, `c` batches have been processed, as the events alone would be from `x` to `w`;
and either every call has processed one, or the next batch holds poison. -/
structure Progress (cfg : Config) (n : Nat) (x : Db) (m c : Nat) (y w : Db) : Prop where
  keyed : y.Keyed
  seq_runs : x.seq.runs ≤ y.seq.runs
  shallow : y.Shallow cfg.depth
  poison : ∀ a ∈ x.tables.queue, y.tables.poison cfg.libs a = x.tables.poison cfg.libs a
  queue : y.tables.queue = x.tables.queue.drop (c * n)
  clean : ∀ a ∈ x.tables.queue.take (c * n), x.tables.poison cfg.libs a = false
  stamped : ∀ a ∈ x.tables.queue.take (c * n), y.Stamped a.eventId
  alone : EachAlone cfg (x.tables.queue.take (c * n)) x w
  same : y.tables.erase = w.tables.erase
  w_keyed : w.Keyed
  w_queue : w.tables.queue = x.tables.queue.drop (c * n)
  pace : (c = m ∧ y.seq = w.seq) ∨
    ∃ p ∈ (x.tables.queue.drop (c * n)).take n, x.tables.poison cfg.libs p = true

theorem take_succ_mul {α : Type} (l : List α) (c n : Nat) :
    l.take ((c + 1) * n) = l.take (c * n) ++ (l.drop (c * n)).take n := by
  rw [Nat.succ_mul, List.take_add]

theorem drop_succ_mul {α : Type} (l : List α) (c n : Nat) :
    l.drop ((c + 1) * n) = (l.drop (c * n)).drop n := by
  rw [Nat.succ_mul, List.drop_drop]

theorem Progress.zero (hx : x.Keyed) (hshallow : x.Shallow cfg.depth) :
    Progress cfg n x 0 0 x x where
  keyed := hx
  seq_runs := le_rfl
  shallow := hshallow
  poison _ _ := rfl
  queue := by simp
  clean := by simp
  stamped := by simp
  alone := by simpa using EachAlone.nil
  same := rfl
  w_keyed := hx
  w_queue := by simp
  pace := .inl ⟨rfl, rfl⟩

theorem Progress.tick {m c : Nat} {w : Db} (h : Progress cfg n x m c y w) (hx : x.Keyed)
    {res : Except Err Nat} (hcall : y.poll cfg n now start pick = some (res, z)) :
    ∃ c' w', Progress cfg n x (m + 1) c' z w' := by
  have hq : y.tables.queue = y.tables.batch n ++ y.tables.queue.drop n :=
    (List.take_append_drop n y.tables.queue).symm
  have hbatch : y.tables.batch n = (x.tables.queue.drop (c * n)).take n := by
    rw [Tables.batch_eq, h.queue]
  have hpoison : ∀ a ∈ (x.tables.queue.drop (c * n)).take n,
      y.tables.poison cfg.libs a = x.tables.poison cfg.libs a :=
    fun a ha => h.poison a (List.mem_of_mem_drop (List.mem_of_mem_take ha))
  have hends := bodies_ok_iff cfg.libs now start h.keyed h.shallow hq
  have hran := poll_ran cfg n now start pick h.keyed
  rw [hcall] at hran
  cases hy : y.bodies cfg.libs now start cfg.depth (y.tables.batch n) with
  | error err =>
    rw [hy] at hran
    cases hran with
    | ok hok => cases hok
    | error herr hseq =>
      -- a poison event is in the batch, and the tables stay as they are
      have hp : ∃ p ∈ (x.tables.queue.drop (c * n)).take n,
          x.tables.poison cfg.libs p = true := by
        by_contra hno
        obtain ⟨y', hy'⟩ := hends.mpr fun a ha => by
          rw [hbatch] at ha
          rw [hpoison a ha]
          by_contra hpa
          exact hno ⟨a, ha, by simpa using hpa⟩
        rw [hy] at hy'
        cases hy'
      exact ⟨c, w, { h with
        keyed := h.keyed.burn hseq, seq_runs := h.seq_runs.trans hseq.2.1, pace := .inr hp }⟩
  | ok y' =>
    rw [hy] at hran
    cases hran with
    | error herr _ => cases herr
    | ok hok =>
      cases hok
      have hclean : ∀ a ∈ (x.tables.queue.drop (c * n)).take n,
          x.tables.poison cfg.libs a = false := by
        intro a ha
        rw [← hpoison a ha]
        exact hends.mp ⟨z, hy⟩ a (hbatch ▸ ha)
      -- so the calls have kept their pace so far
      rcases h.pace with ⟨rfl, hseq⟩ | ⟨p, hp, hpp⟩
      swap
      · rw [hclean p hp] at hpp
        cases hpp
      have herase : y.erase = w.erase := by rw [erase, erase, h.same, hseq]
      have hwq : w.tables.queue = y.tables.batch n ++ w.tables.queue.drop n := by
        rw [hbatch, h.w_queue, List.take_append_drop]
      have hsame := bodies_erase cfg.libs now start cfg.depth
        (y.tables.batch n) y
      rw [hy, herase, ← bodies_erase cfg.libs 0 0] at hsame
      cases hw : w.bodies cfg.libs 0 0 cfg.depth (y.tables.batch n) with
      | error err =>
        rw [hw] at hsame
        cases hsame
      | ok w' =>
        rw [hw] at hsame
        have hsame' : z.erase = w'.erase := Except.ok.inj hsame
        have hseq' : z.erase.seq = w'.erase.seq := congrArg Db.seq hsame'
        obtain ⟨hk, hqz⟩ := bodies_queue h.keyed hq hy
        obtain ⟨hwk, hwqz⟩ := bodies_queue h.w_keyed hwq hw
        obtain ⟨hframe, hle, hshallow⟩ := bodies_frame h.keyed hq hy
        obtain ⟨hold, hnew⟩ := bodies_stamped h.keyed hq hy
        refine ⟨c + 1, w', hk, h.seq_runs.trans hle, hshallow h.shallow, fun a ha => ?_, ?_, ?_, ?_,
          ?_, congrArg Db.tables hsame', hwk, ?_, .inl ⟨rfl, hseq'⟩⟩
        · rw [← h.poison a ha]
          have hrun := hx.runs_below a (Tables.mem_queue.mp ha).1
          exact hframe a (hrun.trans_le h.seq_runs)
        · rw [hqz, h.queue, drop_succ_mul]
        · intro a ha
          rw [take_succ_mul, List.mem_append] at ha
          exact ha.elim (h.clean a) (hclean a)
        · intro a ha
          rw [take_succ_mul, List.mem_append] at ha
          exact ha.elim (fun ha => hold _ (h.stamped a ha)) fun ha => hnew a (hbatch ▸ ha)
        · rw [take_succ_mul]
          refine h.alone.append ?_
          rw [← hbatch]
          exact eachAlone_of_bodies h.w_keyed hwq hw
        · rw [hwqz, h.w_queue, drop_succ_mul]

theorem Ticks.progress {m : Nat} (h : Ticks cfg n x m y) (hx : x.Keyed)
    (hshallow : x.Shallow cfg.depth) : ∃ c w, Progress cfg n x m c y w := by
  induction h with
  | zero => exact ⟨0, x, .zero hx hshallow⟩
  | tick _ hcall ih =>
    obtain ⟨c, w, h⟩ := ih
    exact h.tick hx hcall

/-- Any number of calls can be made. -/
theorem exists_ticks (hx : x.Keyed) (hshallow : x.Shallow cfg.depth) (m : Nat) :
    ∃ y, Ticks cfg n x m y := by
  induction m with
  | zero => exact ⟨x, .zero⟩
  | succ m ih =>
    obtain ⟨y, hy⟩ := ih
    obtain ⟨c, w, hp⟩ := hy.progress hx hshallow
    have hran := poll_ran cfg n 0 0 (fun _ => true)
      hp.keyed
    generalize hr : y.poll cfg n 0 0 _ = r at hran
    cases hran with
    | ok _ => exact ⟨_, .tick hy hr⟩
    | error _ _ => exact ⟨_, .tick hy hr⟩

/-- A stamped event has left the queue. -/
theorem Progress.lt_of_stamped {m c : Nat} {w : Db} (h : Progress cfg n x m c y w) {j : Nat}
    (hj : x.tables.queue[j]? = some e) (hs : y.Stamped e.eventId) : j < c * n := by
  by_contra hlt
  have hin : e ∈ y.tables.queue := by
    rw [h.queue, List.mem_iff_getElem?]
    exact ⟨j - c * n, by rw [List.getElem?_drop, Nat.add_sub_cancel' (by omega)]; exact hj⟩
  obtain ⟨a, ha, hid, hkey⟩ := hs
  obtain ⟨he, hnew⟩ := Tables.mem_queue.mp hin
  rw [List.inj_on_of_nodup_map h.keyed.events ha he hid] at hkey
  simp [RunEvent.unprocessed, hkey] at hnew

theorem Progress.le_of_poison {m c : Nat} {w : Db} (h : Progress cfg n x m c y w) {i : Nat}
    {p : RunEvent} (hi : x.tables.queue[i]? = some p)
    (hp : x.tables.poison cfg.libs p = true) : c * n ≤ i := by
  by_contra hlt
  have hin : p ∈ x.tables.queue.take (c * n) := by
    rw [List.mem_iff_getElem?]
    exact ⟨i, by rw [List.getElem?_take_of_lt (by omega)]; exact hi⟩
  rw [h.clean p hin] at hp
  cases hp

theorem Isolates.shielded (h : Isolates cfg n x) (hx : x.Keyed)
    (hshallow : x.Shallow cfg.depth) : x.Shielded cfg.libs n := by
  intro j e hj he
  obtain ⟨m₀, hm₀⟩ := h.stamps e (List.mem_of_getElem? hj)
    (by rw [raises_iff hx hshallow, he]; exact Bool.false_ne_true)
  obtain ⟨y, hy⟩ := exists_ticks (n := n) hx hshallow m₀
  obtain ⟨c, w, hp⟩ := hy.progress hx hshallow
  have hlt := hp.lt_of_stamped hj (hm₀ m₀ le_rfl y hy)
  have hn : 0 < n := Nat.pos_of_ne_zero fun h0 => by
    rw [h0] at hlt
    omega
  refine ⟨hn, fun i p hi hpoison => ?_⟩
  exact lt_of_lt_of_le ((Nat.div_lt_iff_lt_mul hn).mpr hlt)
    ((Nat.le_div_iff_mul_le hn).mpr (hp.le_of_poison hi hpoison))

theorem Shielded.stamps (h : x.Shielded cfg.libs n) (hx : x.Keyed)
    (hshallow : x.Shallow cfg.depth) (he : e ∈ x.tables.queue)
    (hraises : ¬Raises cfg x e) {m : Nat} (hm : x.tables.queue.length ≤ m)
    (hy : Ticks cfg n x m y) : y.Stamped e.eventId := by
  rw [raises_iff hx hshallow, Bool.not_eq_true] at hraises
  obtain ⟨j, hj⟩ := List.mem_iff_getElem?.mp he
  obtain ⟨hn, hbefore⟩ := h j e hj hraises
  obtain ⟨c, w, hp⟩ := hy.progress hx hshallow
  refine hp.stamped e ?_
  rw [List.mem_iff_getElem?]
  refine ⟨j, ?_⟩
  have hlen := (List.getElem?_eq_some_iff.mp hj).1
  have hjc : j < c * n := by
    rcases hp.pace with ⟨rfl, -⟩ | ⟨p, hpin, hpoison⟩
    · -- every call has processed a batch
      exact lt_of_lt_of_le hlen (hm.trans (Nat.le_mul_of_pos_right c hn))
    · -- the batch that is stuck comes after the batch of `e`
      obtain ⟨k, hk⟩ := List.mem_iff_getElem?.mp hpin
      have hkn : k < n := by
        by_contra hge
        rw [List.getElem?_take_eq_none (by omega)] at hk
        cases hk
      rw [List.getElem?_take_of_lt hkn, List.getElem?_drop] at hk
      have hlt := hbefore _ p hk hpoison
      have hdiv : (c * n + k) / n = c := by
        rw [Nat.mul_comm, Nat.mul_add_div hn, Nat.div_eq_of_lt hkn, Nat.add_zero]
      rw [hdiv] at hlt
      exact (Nat.div_lt_iff_lt_mul hn).mp hlt
  rw [List.getElem?_take_of_lt hjc]
  exact hj

/-- A database without chains is shallow. -/
theorem shallow_of_unchained (h : ∀ j ∈ x.tables.jobs, j.triggerOnJobId = none) :
    x.Shallow (depth + 1) := by
  intro id d hd
  rw [Tables.children, List.mem_filter] at hd
  rw [h d hd.1] at hd
  cases hd.2

/-- The consumer isolates its poison events just when they come in later batches than the others. -/
theorem isolates_iff_shielded (hx : x.Keyed) (hshallow : x.Shallow cfg.depth) :
    Isolates cfg n x ↔ x.Shielded cfg.libs n := by
  refine ⟨fun h => h.shielded hx hshallow, fun h => ⟨fun e he hraises => ?_, fun m y hy => ?_⟩⟩
  · exact ⟨x.tables.queue.length, fun m hm y hy => h.stamps hx hshallow he hraises hm hy⟩
  · obtain ⟨c, w, hp⟩ := hy.progress hx hshallow
    exact ⟨c * n, w, hp.alone, hp.same, hp.queue⟩

/-- `Config.minutely` once the zone database has dropped `US/Pacific-New`. -/
def dropped : Config :=
  { Config.minutely with
    libs := { Config.minutely.libs with zoneInfo := fun key => key != "US/Pacific-New" } }

/-- Two recurring jobs, the first one in the zone that is dropped, whose first runs have ended, in
the order `first`, `second`. -/
def zoneRun (first second : Nat) : List Act :=
  [.at 0 (.create 0 { CreateArgs.echo (some "* * * * *") none none with
      timezone := some "US/Pacific-New" }),
    .at 1 (.create 1 (.echo (some "* * * * *") none none)),
    .at 2 (.publish 2 10),
    .at 3 (.claim 3 first first), .at 4 (.finish 4 first first .success),
    .at 5 (.claim 5 second second), .at 6 (.finish 6 second second .success)]

/-- What the runs of `zoneRun` come to: a queue of two events. -/
theorem zoneRun_state (first second : Nat) (p q : Bool)
    (h : (Sys.runActs .minutely {} (zoneRun first second)).any (fun σ =>
      decide (σ.tables.queue.map (σ.tables.poison dropped.libs) = [p, q]) &&
        σ.tables.jobs.all fun j => j.triggerOnJobId.isNone) = true) :
    ∃ σ a b, Sys.runActs .minutely {} (zoneRun first second) = some σ ∧
      (⟨σ.tables, σ.seq⟩ : Db).Keyed ∧ (⟨σ.tables, σ.seq⟩ : Db).Shallow dropped.depth ∧
      σ.tables.queue = [a, b] ∧ σ.tables.poison dropped.libs a = p ∧
      σ.tables.poison dropped.libs b = q := by
  obtain ⟨σ, hσ, h⟩ := (Option.any_eq_true _ _).mp h
  simp only [Bool.and_eq_true, decide_eq_true_eq, List.all_eq_true, Option.isNone_iff_eq_none,
    List.map_eq_cons_iff, List.map_eq_nil_iff] at h
  obtain ⟨⟨a, l, hq, hp, b, l', rfl, hp', rfl⟩, htrigger⟩ := h
  refine ⟨σ, a, b, hσ, ?_, shallow_of_unchained htrigger, hq, hp, hp'⟩
  refine @Sys.Reach.keyed .minutely _ (Sys.Reach.init.runActs (fun τ a ha => ?_) hσ)
  simp only [zoneRun, List.mem_cons, List.not_mem_nil, or_false] at ha
  rcases ha with rfl | rfl | rfl | rfl | rfl | rfl | rfl <;> trivial

/-- One by one, the event that comes first is processed before the other one blocks. -/
theorem zoneRun_isolates : ∃ σ, Sys.runActs .minutely {} (zoneRun 2 1) = some σ ∧
    Isolates dropped 1 ⟨σ.tables, σ.seq⟩ := by
  obtain ⟨σ, a, b, hσ, hkeyed, hshallow, hq, ha, hb⟩ :=
    zoneRun_state 2 1 false true (by decide +kernel)
  refine ⟨σ, hσ, (isolates_iff_shielded hkeyed hshallow).mpr fun j e hj he => ⟨by decide, ?_⟩⟩
  intro i p hi hp
  dsimp only at hj he hi hp
  rw [hq] at hj hi
  rcases j with _ | _ | j
  · rcases i with _ | _ | i
    · cases hi
      rw [ha] at hp
      cases hp
    · decide
    · cases hi
  · cases hj
    rw [hb] at he
    cases he
  · cases hj

/-- In one batch, the event of the job whose zone is gone blocks the event of the other job. -/
theorem zoneRun_blocks : ∃ σ, Sys.runActs .minutely {} (zoneRun 1 2) = some σ ∧
    ¬Isolates dropped 50 ⟨σ.tables, σ.seq⟩ := by
  obtain ⟨σ, a, b, hσ, hkeyed, hshallow, hq, ha, hb⟩ :=
    zoneRun_state 1 2 true false (by decide +kernel)
  refine ⟨σ, hσ, fun h => ?_⟩
  have hlt := ((h.shielded hkeyed hshallow) 1 b (by rw [hq]; rfl) hb).2 0 a (by rw [hq]; rfl) ha
  exact absurd hlt (by decide)

end Db

end TaskScheduler
