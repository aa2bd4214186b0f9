import TaskScheduler.Batch.Poison
import TaskScheduler.Interleave.Chains
import TaskScheduler.Lifecycle.Cascade

/-! A terminal event that is delivered again.  The unique indexes keep the body from creating a run
twice, but not from creating one that the first delivery has skipped: the body answers from the
database as it is now, and does nothing exactly where nothing is left to answer. -/

namespace TaskScheduler

open Lib

namespace Tables

/-- `uq_job_runs_recurring_tick`: the tick of the job has a run. -/
def hasTick (t : Tables) (jobId : Nat) (runAt : Int) : Bool :=
  t.runs.any fun r => r.jobId == jobId && r.waitForRunId.isNone && r.scheduledAt == runAt

/-- `uq_job_runs_trigger_cause`: the job has a run that the end of run `runId` has caused. -/
def hasCause (t : Tables) (jobId runId : Nat) : Bool :=
  t.runs.any fun r => r.jobId == jobId && r.waitForRunId == some runId

/-- The job of the event is due its next run: it is recurring, not cancelled and idle, and the tick
after the event has no run. -/
def recurs (libs : Libs) (t : Tables) (e : RunEvent) : Bool :=
  (t.job? e.jobId).any fun job =>
    job.cronExpr.any fun cronExpr =>
      job.cancelledAt.isNone && !t.busy job.jobId &&
        match t.runs.filter fun r => r.runId == e.runId && r.jobId == job.jobId with
        | [prevRun] =>
          (nextAfter libs cronExpr job.zone (successorAnchor prevRun e.occurredAt)).any fun runAt =>
            !t.hasTick job.jobId runAt
        | _ => false

/-- The downstream is due a run: the event triggers it, it is idle, and the run that ended has not
caused one yet. -/
def fires (t : Tables) (e : RunEvent) (d : Job) : Bool :=
  triggersOn d.triggerOnStatus e.eventType && !t.busy d.jobId && !t.hasCause d.jobId e.runId

/-- A settle check of the job goes through. -/
def maySettle (t : Tables) (id : Nat) : Bool := (t.job? id).any t.settles

/-- Nothing is left to answer: the continuation raises, or no run is due and nothing may settle. -/
def answered (libs : Libs) (t : Tables) (e : RunEvent) : Bool :=
  t.poison libs e ||
    !t.recurs libs e && !t.maySettle e.jobId &&
      (t.reached e.jobId).all fun d => !t.fires e d && !t.maySettle d.jobId

/-- No run has been created, and every job is in its state. -/
structure Undisturbed (t t' : Tables) : Prop where
  runs : t'.runs = t.runs
  states : t'.jobs.map (fun j => (j.jobId, j.state)) = t.jobs.map fun j => (j.jobId, j.state)

variable {t t' : Tables} {e : RunEvent} {libs : Libs}

theorem busy_congr (h : t'.runs = t.runs) (id : Nat) : t'.busy id = t.busy id := by
  unfold busy
  rw [h]

theorem fires_congr (h : t'.runs = t.runs) (d : Job) : t'.fires e d = t.fires e d := by
  unfold fires hasCause
  rw [busy_congr h, h]

theorem maySettle_congr (hruns : t'.runs = t.runs) (hjobs : t'.jobs = t.jobs) (id : Nat) :
    t'.maySettle id = t.maySettle id := by
  unfold maySettle job? settles parentActive job?
  rw [hjobs]
  simp only [busy_congr hruns]

/-! ### The runs -/

/-- A new run of an idle job clashes by its tick, or by its cause. -/
theorem clashes_new {seq : Seq} {start runAt : Int} {job : Job} {wait : Option Nat}
    (hidle : t.busy job.jobId = false) :
    t.runs.any (storedRun seq start (.new job runAt .pending wait)).clashes =
      match wait with
      | none => t.hasTick job.jobId runAt
      | some runId => t.hasCause job.jobId runId := by
  have hlive : ∀ r ∈ t.runs, job.jobId = r.jobId → r.status.executing = false := by
    intro r hr hid
    have hno := List.any_eq_false.mp hidle r hr
    simpa [hid] using hno
  have hany : ∀ p q : JobRun → Bool, (∀ r ∈ t.runs, p r = q r) → t.runs.any p = t.runs.any q := by
    intro p q hpq
    rw [Bool.eq_iff_iff, List.any_eq_true, List.any_eq_true]
    exact exists_congr fun r => and_congr_right fun hr => by rw [hpq r hr]
  cases wait with
  | none =>
    refine hany _ _ fun r hr => ?_
    have hlive := hlive r hr
    rw [Bool.eq_iff_iff]
    simp only [JobRun.clashes, storedRun, JobRun.new, Bool.and_eq_true, Bool.or_eq_true, beq_iff_eq,
      Option.isSome_none, Option.isNone_none, Bool.false_eq_true, false_and, true_and, or_false]
    constructor
    · rintro ⟨hid, ⟨-, hexec⟩ | ⟨hwait, htick⟩⟩
      · rw [hlive hid] at hexec
        cases hexec
      · exact ⟨⟨hid.symm, hwait⟩, htick.symm⟩
    · rintro ⟨⟨hid, hwait⟩, htick⟩
      exact ⟨hid.symm, .inr ⟨hwait, htick.symm⟩⟩
  | some runId =>
    refine hany _ _ fun r hr => ?_
    have hlive := hlive r hr
    rw [Bool.eq_iff_iff]
    simp only [JobRun.clashes, storedRun, JobRun.new, Bool.and_eq_true, Bool.or_eq_true, beq_iff_eq,
      Option.isSome_some, Option.isNone_some, Bool.false_eq_true, false_and, true_and, or_false]
    constructor
    · rintro ⟨hid, ⟨-, hexec⟩ | hcause⟩
      · rw [hlive hid] at hexec
        cases hexec
      · exact ⟨hid.symm, hcause.symm⟩
    · rintro ⟨hid, hcause⟩
      exact ⟨hid.symm, .inr hcause.symm⟩

end Tables

namespace Db

variable {libs : Libs} {start now : Int} {e : RunEvent} {x y z : Db}

/-- A spawn leaves the runs as they are where the job is busy or the run clashes. -/
theorem spawn_runs_iff (row : JobRun) :
    (x.spawn start row).tables.runs = x.tables.runs ↔
      x.tables.busy row.jobId = true ∨
        x.tables.runs.any (storedRun x.seq start row).clashes = true := by
  unfold spawn
  split
  · next hbusy => exact iff_of_true rfl (.inl hbusy)
  · next hidle =>
    split
    · next hclash => exact iff_of_true rfl (.inr hclash)
    · next hnew =>
      refine iff_of_false (fun h => ?_) (fun h => h.elim hidle hnew)
      have hlen := congrArg List.length h
      change (x.tables.runs ++ [storedRun x.seq start row]).length = x.tables.runs.length at hlen
      rw [List.length_append, List.length_singleton] at hlen
      omega

theorem handle_runs_iff (d : Job) :
    (x.handle start e d).tables.runs = x.tables.runs ↔ x.tables.fires e d = false := by
  unfold handle Tables.fires
  cases htriggers : triggersOn d.triggerOnStatus e.eventType with
  | false => exact iff_of_true rfl rfl
  | true =>
    cases hbusy : x.tables.busy d.jobId with
    | true => exact iff_of_true rfl rfl
    | false =>
      simp only [Bool.not_true, Bool.false_eq_true, if_false, Bool.not_false, Bool.true_and,
        Bool.not_eq_false']
      rw [spawn_runs_iff, Tables.clashes_new hbusy]
      change x.tables.busy d.jobId = true ∨ _ ↔ _
      rw [hbusy]
      simp

/-- The runs of a database that grows stay as they are through every part, if they do in the end. -/
theorem Grows.runs_eq (h : x.Grows y) (h' : y.Grows z) (heq : z.tables.runs = x.tables.runs) :
    y.tables.runs = x.tables.runs := by
  obtain ⟨rs, hrs, -⟩ := h.runs
  obtain ⟨rs', hrs', -⟩ := h'.runs
  have hlen := congrArg List.length heq
  rw [hrs', hrs, List.length_append, List.length_append] at hlen
  have hnil : rs = [] := List.eq_nil_of_length_eq_zero (by omega)
  rw [hrs, hnil, List.append_nil]

theorem handleAll_runs_iff (ds : List Job) (he : e.runId < x.seq.runs) :
    (ds.foldl (handle start e) x).tables.runs = x.tables.runs ↔
      ∀ d ∈ ds, x.tables.fires e d = false := by
  induction ds generalizing x with
  | nil => simp
  | cons d ds ih =>
    have hgrows : x.Grows (x.handle start e d) := x.grows_handle d he
    have he' := he.trans_le hgrows.seq_runs
    have hone : (x.handle start e d).tables.runs = x.tables.runs ↔ x.tables.fires e d = false :=
      handle_runs_iff d
    rw [List.foldl_cons, List.forall_mem_cons, ← hone]
    constructor
    · intro h
      have hhead := hgrows.runs_eq (grows_handleAll ds _ he') h
      refine ⟨hhead, fun b hb => ?_⟩
      rw [← Tables.fires_congr hhead]
      exact (ih he').mp (h.trans hhead.symm) b hb
    · rintro ⟨hhead, hrest⟩
      refine ((ih he').mpr fun b hb => ?_).trans hhead
      rw [Tables.fires_congr hhead]
      exact hrest b hb

theorem recur_runs_iff {job : Job} (hjob : x.tables.job? e.jobId = some job)
    (h : x.recur libs start e job = .ok y) :
    y.tables.runs = x.tables.runs ↔ x.tables.recurs libs e = false := by
  unfold Tables.recurs
  rw [hjob, Option.any_some]
  unfold recur at h
  split at h
  · next hcron =>
    cases h
    rw [hcron]
    exact iff_of_true rfl rfl
  next cron hcron =>
  rw [hcron, Option.any_some]
  split at h
  · next hcancelled =>
    cases h
    refine iff_of_true rfl ?_
    rw [Option.isNone_eq_false_iff.mpr hcancelled]
    rfl
  next hcancelled =>
  have hnone : job.cancelledAt.isNone = true := by simpa using hcancelled
  generalize (x.tables.runs.filter fun r => r.runId == e.runId && r.jobId == job.jobId) = ended
    at h ⊢
  split at h
  · next prev =>
    split at h
    · cases h
    split at h
    · cases h
    next runAt hnext =>
    cases h
    simp only [hnext, Option.any_some, hnone]
    rw [spawn_runs_iff]
    cases hbusy : x.tables.busy job.jobId with
    | true => exact iff_of_true (.inl hbusy) rfl
    | false =>
      rw [Tables.clashes_new hbusy]
      change x.tables.busy job.jobId = true ∨ _ ↔ _
      rw [hbusy]
      simp
  · cases h

/-- The first parts of the body create no run where no run is due. -/
theorem continue_runs_iff (he : e.runId < x.seq.runs) (h : x.continue_ libs start e = .ok y) :
    y.tables.runs = x.tables.runs ↔ x.tables.recurs libs e = false ∧
      ∀ d ∈ x.tables.reached e.jobId, x.tables.fires e d = false := by
  unfold continue_ at h
  split at h
  · next hnone =>
    cases h
    have hrecurs : x.tables.recurs libs e = false := by
      unfold Tables.recurs
      rw [hnone]
      rfl
    rw [handleAll_runs_iff _ he]
    exact (and_iff_right hrecurs).symm
  · next job hjob =>
    cases hrec : x.recur libs start e job with
    | error err =>
      rw [hrec] at h
      cases h
    | ok z =>
      rw [hrec] at h
      cases h
      have hz := grows_recur hrec
      have he' := he.trans_le hz.seq_runs
      rw [← recur_runs_iff hjob hrec]
      constructor
      · intro heq
        have hhead := hz.runs_eq (grows_handleAll _ z he') heq
        refine ⟨hhead, fun d hd => ?_⟩
        rw [← Tables.fires_congr hhead]
        exact (handleAll_runs_iff _ he').mp (heq.trans hhead.symm) d hd
      · rintro ⟨hhead, hall⟩
        refine ((handleAll_runs_iff _ he').mpr fun d hd => ?_).trans hhead
        rw [Tables.fires_congr hhead]
        exact hall d hd

end Db

/-! ### The states -/

namespace Tables

variable {t t' : Tables} {now : Int} {depth id : Nat}

theorem settle_idle (h : t.maySettle id = false) (hok : t.settle now depth id = .ok t') :
    t' = t := by
  cases depth with
  | zero => cases hok
  | succ depth =>
    rw [settle, if_neg (by rw [← maySettle, h]; exact Bool.false_ne_true)] at hok
    cases hok
    rfl

/-- A settle check leaves no more active jobs, and less where it goes through. -/
theorem settle_count (hok : t.settle now depth id = .ok t') :
    t'.activeCount ≤ t.activeCount ∧ (t.maySettle id = true → t'.activeCount < t.activeCount) := by
  induction depth generalizing id t t' with
  | zero => cases hok
  | succ depth ih =>
    cases hmay : t.maySettle id with
    | false =>
      rw [settle_idle hmay hok]
      exact ⟨Nat.le_refl _, nofun⟩
    | true =>
      rw [settle, if_pos (by rw [← maySettle, hmay])] at hok
      obtain ⟨j, hj, hsettles⟩ := (Option.any_eq_true _ _).mp hmay
      obtain ⟨hmem, hid⟩ := job?_mem hj
      have hactive : j.state = .active := by
        simp only [settles, Bool.and_eq_true, beq_iff_eq] at hsettles
        exact hsettles.1.1.1
      have hless : (t.setJob id (Job.settle now)).activeCount < t.activeCount := by
        rw [setJob_eq_settled]
        exact activeCount_settled_lt hmem hactive (hid ▸ List.mem_singleton_self j.jobId)
      have hle := foldlM_invariant
        (I := fun s => s.activeCount ≤ (t.setJob id (Job.settle now)).activeCount)
        (fun s s' d _ hs hd => (ih hd).1.trans hs) le_rfl hok
      exact ⟨hle.trans hless.le, fun _ => hle.trans_lt hless⟩

/-- Settle checks of several jobs leave every job active only if none of them goes through. -/
theorem settleEach_count {ds : List Job}
    (hok : ds.foldlM (fun t d => t.settle now depth d.jobId) t = .ok t') :
    t'.activeCount ≤ t.activeCount ∧
      (t'.activeCount = t.activeCount → ∀ d ∈ ds, t.maySettle d.jobId = false) := by
  induction ds generalizing t with
  | nil =>
    cases hok
    exact ⟨Nat.le_refl _, fun _ => by simp⟩
  | cons d ds ih =>
    rw [List.foldlM_cons] at hok
    cases hd : t.settle now depth d.jobId with
    | error err =>
      rw [hd] at hok
      cases hok
    | ok s =>
      rw [hd] at hok
      obtain ⟨hle, hlt⟩ := settle_count hd
      obtain ⟨hle', hall⟩ := ih hok
      refine ⟨hle'.trans hle, fun heq => ?_⟩
      have hidle : t.maySettle d.jobId = false := by
        cases hmay : t.maySettle d.jobId with
        | false => rfl
        | true =>
          have := hlt hmay
          omega
      obtain rfl := settle_idle hidle hd
      exact List.forall_mem_cons.mpr ⟨hidle, hall heq⟩

theorem settleEach_idle {ds : List Job} (h : ∀ d ∈ ds, t.maySettle d.jobId = false)
    (hok : ds.foldlM (fun t d => t.settle now depth d.jobId) t = .ok t') : t' = t :=
  foldlM_invariant (I := fun s => s = t)
    (fun _ _ d hd hs hstep => (settle_idle (hs ▸ h d hd) hstep).trans hs) rfl hok

/-- Jobs in the same states are active in the same number. -/
theorem activeCount_congr (h : t'.jobs.map (fun j => (j.jobId, j.state)) =
    t.jobs.map fun j => (j.jobId, j.state)) : t'.activeCount = t.activeCount := by
  have hcount : ∀ s : Tables, s.activeCount =
      (s.jobs.map fun j => (j.jobId, j.state)).countP fun p => p.2 == .active := by
    intro s
    rw [List.countP_map]
    rfl
  rw [hcount, hcount, h]

/-- Where no chain is longer than ten jobs, a cascade stays ten levels deep. -/
theorem Chains.shallow (h : t.Chains) (hkeys : (t.jobs.map (·.jobId)).Nodup)
    (hdepth : maxChainDepth < depth) (id : Nat) : t.Shallow depth id := by
  have hunique : ∀ {m n i}, Chained t.jobs m i → Chained t.jobs n i → m = n := by
    intro m n i hm hn
    obtain ⟨j, hj, hji⟩ := hm.mem
    exact (hm.rooted hkeys hj hji).unique (hn.rooted hkeys hj hji)
  -- the deeper a job is in its chain, the less is below it
  have hbelow : ∀ depth n i, Chained t.jobs n i → maxChainDepth < n + depth →
      t.Shallow depth i := by
    intro depth
    induction depth with
    | zero =>
      intro n i hn hlt
      obtain ⟨j, hj, rfl⟩ := hn.mem
      obtain ⟨m, hm, hchain⟩ := h j hj
      have := hunique hn hchain
      omega
    | succ depth ih =>
      intro n i hn hlt d hd
      obtain ⟨hd, htrigger⟩ := List.mem_filter.mp hd
      exact ih (n + 1) d.jobId (.link hd (beq_iff_eq.mp htrigger) hn) (by omega)
  cases depth with
  | zero => omega
  | succ depth =>
    intro d hd
    obtain ⟨hd, -⟩ := List.mem_filter.mp hd
    obtain ⟨n, -, hn⟩ := h d hd
    have := hn.pos
    exact hbelow depth n d.jobId hn (by omega)

end Tables

/-! ### The body -/

namespace Db

variable {libs : Libs} {start now : Int} {depth : Nat} {e : RunEvent} {x y : Db}

/-- The body disturbs nothing exactly where nothing is left to answer. -/
theorem body_undisturbed (he : e.runId < x.seq.runs)
    (h : x.body libs now start depth e = .ok y) :
    x.tables.Undisturbed y.tables ↔ x.tables.answered libs e = true := by
  unfold body at h
  cases hcont : x.continue_ libs start e with
  | error err =>
    rw [hcont] at h
    cases h
  | ok z =>
  rw [hcont] at h
  dsimp only at h
  cases hs : settleAll now depth e.jobId (x.tables.reached e.jobId) z.tables with
  | error err =>
    rw [hs] at h
    cases h
  | ok t =>
  rw [hs] at h
  cases h
  have hpoison := (continue_ok_iff start).mp ⟨z, hcont⟩
  have hruns := continue_runs_iff he hcont
  have hjobs := continue_jobs hcont
  have hunsettled := settleAll_unsettled hs
  have hanswered : x.tables.answered libs e = true ↔
      (x.tables.recurs libs e = false ∧
        ∀ d ∈ x.tables.reached e.jobId, x.tables.fires e d = false) ∧
        x.tables.maySettle e.jobId = false ∧
          ∀ d ∈ x.tables.reached e.jobId, x.tables.maySettle d.jobId = false := by
    unfold Tables.answered
    rw [hpoison]
    simp only [Bool.false_or, Bool.and_eq_true, Bool.not_eq_true', List.all_eq_true]
    constructor
    · rintro ⟨⟨hrec, hself⟩, hall⟩
      exact ⟨⟨hrec, fun d hd => (hall d hd).1⟩, hself, fun d hd => (hall d hd).2⟩
    · rintro ⟨⟨hrec, hfires⟩, hself, hall⟩
      exact ⟨⟨hrec, hself⟩, fun d hd => ⟨hfires d hd, hall d hd⟩⟩
  unfold settleAll at hs
  cases hfirst : z.tables.settle now depth e.jobId with
  | error err =>
    rw [hfirst] at hs
    cases hs
  | ok t₁ =>
  rw [hfirst] at hs
  dsimp only at hs
  rw [hanswered, ← hruns]
  constructor
  · rintro ⟨hsame, hstates⟩
    have hz : z.tables.runs = x.tables.runs := hunsettled.runs.symm.trans hsame
    have hcount : t.activeCount = z.tables.activeCount :=
      Tables.activeCount_congr (hjobs ▸ hstates)
    obtain ⟨hle, hlt⟩ := Tables.settle_count hfirst
    obtain ⟨hle', hall⟩ := Tables.settleEach_count hs
    have hidle : z.tables.maySettle e.jobId = false := by
      cases hmay : z.tables.maySettle e.jobId with
      | false => rfl
      | true =>
        have := hlt hmay
        omega
    obtain rfl := Tables.settle_idle hidle hfirst
    refine ⟨hz, (Tables.maySettle_congr hz hjobs _).symm.trans hidle, fun d hd => ?_⟩
    exact (Tables.maySettle_congr hz hjobs _).symm.trans (hall hcount d hd)
  · rintro ⟨hz, hself, hall⟩
    obtain rfl := Tables.settle_idle ((Tables.maySettle_congr hz hjobs _).trans hself) hfirst
    obtain rfl := Tables.settleEach_idle
      (fun d hd => (Tables.maySettle_congr hz hjobs _).trans (hall d hd)) hs
    exact ⟨hz, congrArg (List.map _) hjobs⟩

end Db

/-! ### A redelivery -/

/-- An event that is delivered again is answered once more from the database as it is: the delivery
creates no run and changes the state of no job exactly where nothing is left to answer. -/
theorem Sys.redelivery_noop_iff {cfg : Config} {ok : Sys → Act → Prop} {σ σ' : Sys}
    {now start : Int} {e : RunEvent} {pick : Nat → Bool} (hreach : Reach cfg ok σ)
    (hdepth : maxChainDepth < cfg.depth)
    (hstep : σ.step cfg (.atomic (.deliver now e) start pick) = some σ') :
    σ.tables.Undisturbed σ'.tables ↔ σ.tables.answered cfg.libs e = true := by
  have hkeyed := hreach.interleaved.coherent.keyed
  have hkeys := hreach.interleaved.coherent.jobs
  simp only [Sys.step] at hstep
  split at hstep
  · next hen =>
    have hrun : e.runId < σ.seq.runs := by
      simp only [Kind.enabled, Bool.and_eq_true, List.any_eq_true, decide_eq_true_eq] at hen
      obtain ⟨-, e₀, he₀, heq⟩ := hen
      have hid := congrArg RunEvent.runId heq
      exact hid ▸ hkeyed.runs_below e₀ he₀
    let x : Db := ⟨σ.tables, σ.seq⟩
    have hbody : ((Kind.deliver now e).prog cfg).wp (rowAccount Job.SettledTo pick start)
        (fun err _ => x.body cfg.libs now start cfg.depth e = .error err)
        (fun _ v => ∃ y, x.body cfg.libs now start cfg.depth e = .ok y ∧ v = y.view) x.view := by
      unfold Kind.prog Txn.quiet
      rw [Program.wp_bind]
      exact wp_body hkeys.nodup (fun y hy => ⟨y, hy, rfl⟩) fun err _ hy => hy
    split at hstep
    · cases hstep
    · next won seq ses hexec =>
      cases hstep
      obtain ⟨v', htables, -, y, hy, rfl⟩ := run_atomic settledTo_aging hkeys hbody hexec
      rw [← htables]
      exact Db.body_undisturbed (x := x) hrun hy
    · next err seq ses hexec =>
      cases hstep
      -- the body raises, and nothing of it is kept
      obtain ⟨v', -, -, hy⟩ := run_atomic settledTo_aging hkeys hbody hexec
      have hshallow : x.Shallow cfg.depth := fun id => hreach.chains.shallow hkeys.nodup hdepth id
      have hpoison : σ.tables.poison cfg.libs e = true := by
        cases hp : σ.tables.poison cfg.libs e with
        | true => rfl
        | false =>
          obtain ⟨y, hy'⟩ := (Db.body_ok_iff now start hshallow).mpr hp
          cases hy'.symm.trans hy
      refine iff_of_true ⟨rfl, rfl⟩ ?_
      unfold Tables.answered
      rw [hpoison, Bool.true_or]
  · cases hstep

/-- A job on every minute with a downstream, and two ends of its runs.  The run of the downstream
that the first end causes is still executing at the second one. -/
def slowRun : List Act :=
  [.at 0 (.create 0 (.echo (some "* * * * *") none none)),
    .at 1 (.create 1 (.echo none (some 1) none)), .at 2 (.publish 2 10), .at 3 (.claim 3 1 1),
    .at 4 (.finish 4 1 1 .success), .at 5 (.poll 5 10), .at 6 (.publish 6 10), .at 7 (.claim 7 2 1),
    .at 8 (.finish 8 2 1 .success), .at 9 (.poll 9 10), .at 10 (.claim 10 3 2),
    .at 11 (.finish 11 3 2 .success), .at 12 (.poll 12 10)]

/-- The first end is answered, and its redelivery does nothing. -/
theorem first_redelivered : ∃ σ e σ', Sys.runActs .minutely {} slowRun = some σ ∧
    e ∈ σ.tables.events ∧ e.eventId = 4 ∧ e.hasKey processedByKey = true ∧
    σ.step .minutely (.at 13 (.deliver 13 e)) = some σ' ∧ σ.tables.Undisturbed σ'.tables := by
  have hrun : (Sys.runActs .minutely {} slowRun).any (fun σ =>
      (σ.tables.events.find? fun e => e.eventId == 4).any fun e => e.hasKey processedByKey &&
        σ.tables.answered Config.minutely.libs e &&
          (σ.step .minutely (.at 13 (.deliver 13 e))).isSome) = true := by decide +kernel
  obtain ⟨σ, hσ, h⟩ := (Option.any_eq_true _ _).mp hrun
  obtain ⟨e, he, h⟩ := (Option.any_eq_true _ _).mp h
  rw [Bool.and_eq_true, Bool.and_eq_true] at h
  obtain ⟨⟨hstamp, hanswered⟩, hsome⟩ := h
  obtain ⟨σ', hstep⟩ := Option.isSome_iff_exists.mp hsome
  have hreach : Sys.Reach .minutely (fun _ _ => True) σ :=
    Sys.Reach.init.runActs (fun _ _ _ => trivial) hσ
  exact ⟨σ, e, σ', hσ, List.mem_of_find?_eq_some he, by simpa using List.find?_some he, hstamp,
    hstep, (Sys.redelivery_noop_iff hreach (by decide) hstep).mpr hanswered⟩

/-- The second end found the downstream executing and is stamped; its redelivery creates a run. -/
theorem second_redelivered : ∃ σ e σ', Sys.runActs .minutely {} slowRun = some σ ∧
    e ∈ σ.tables.events ∧ e.eventType.terminal = true ∧ e.hasKey processedByKey = true ∧
    σ.step .minutely (.at 13 (.deliver 13 e)) = some σ' ∧ ¬σ.tables.Undisturbed σ'.tables := by
  have hrun : (Sys.runActs .minutely {} slowRun).any (fun σ =>
      (σ.tables.events.find? fun e => e.eventId == 10).any fun e => e.eventType.terminal &&
        e.hasKey processedByKey && (σ.step .minutely (.at 13 (.deliver 13 e))).any fun σ' =>
          σ.tables.runs.length != σ'.tables.runs.length) = true := by decide +kernel
  obtain ⟨σ, hσ, h⟩ := (Option.any_eq_true _ _).mp hrun
  obtain ⟨e, he, h⟩ := (Option.any_eq_true _ _).mp h
  rw [Bool.and_eq_true, Bool.and_eq_true] at h
  obtain ⟨⟨hterminal, hstamp⟩, hsome⟩ := h
  obtain ⟨σ', hstep, hlen⟩ := (Option.any_eq_true _ _).mp hsome
  refine ⟨σ, e, σ', hσ, List.mem_of_find?_eq_some he, hterminal, hstamp, hstep, fun h => ?_⟩
  rw [h.runs, bne_self_eq_false] at hlen
  cases hlen

end TaskScheduler
