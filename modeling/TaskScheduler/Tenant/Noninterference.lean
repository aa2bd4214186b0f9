import TaskScheduler.Batch.Body
import TaskScheduler.Interleave.Replay
import TaskScheduler.Tenant.Cancel
import TaskScheduler.Tenant.Creation

/-! Tenants do not interfere.  A call of a user returns what the rows of the user alone determine, up
to fresh keys and timestamps; it changes no row of another user; and it tells the rows of another
user from rows that do not exist by nothing. -/

namespace TaskScheduler

open Lib

/-! ### The calls of a user -/

/-- The operations of the domain layer on behalf of a user. -/
inductive Call
  | create (now : Int) (args : CreateArgs)
  | cancel (now : Int) (jobId : Nat)
  | status (jobId : Nat) (includeRuns : Bool) (runLimit : Nat)
  | list (filter : ListFilter)
  | upstream (runId : Nat)

/-- What they return; a creation returns a row. -/
inductive Result (δ : Type)
  | created (job : Option Job)
  | cancelled (view : CancelledView)
  | status (view : JobView)
  | page (jobs : Option PagedJobs)
  | payload (payload : UpstreamPayload δ)

/-- The end of a transaction with its result read on the database after it. -/
def Db.ending {α β : Type} (f : α → Db → β) : Option (Except Err α × Db) →
    Option (Except Err β × Db)
  | none => none
  | some (.ok a, y) => some (.ok (f a y), y)
  | some (.error e, y) => some (.error e, y)

namespace Call

variable {δ : Type}

/-- A call of the user `u` at the clock reading `start`, with no other transaction open. -/
def run (cfg : Config) (loads : String → Option δ) (u : String) (start : Int) (pick : Nat → Bool)
    (c : Call) (x : Db) : Option (Except Err (Result δ) × Db) :=
  match c with
  | .create now args =>
    Db.ending (fun id y => .created (y.tables.job? id))
      (x.alone start pick (createJob cfg.libs now { args with userId := u }))
  | .cancel now jobId =>
    Db.ending (fun view _ => .cancelled view) (x.alone start pick (cancelJob now cfg.depth u jobId))
  | .status jobId includeRuns runLimit =>
    Db.ending (fun view _ => .status view)
      (x.alone start pick (getJobWithRuns u jobId includeRuns runLimit))
  | .list filter => some (.ok (.page (listJobs x.tables x.tables u filter)), x)
  | .upstream runId =>
    Db.ending (fun payload _ => .payload payload) (x.alone start pick (readUpstream loads runId u))

/-- The id that a call names. -/
def id : Call → Option Nat
  | .create _ args => args.triggerOnJobId
  | .cancel _ jobId => some jobId
  | .status jobId _ _ => some jobId
  | .list _ => none
  | .upstream runId => some runId

/-- The user has no row with the id, whether another user has one or not. -/
def Absent (u : String) (t : Tables) (id : Nat) : Call → Prop
  | .upstream _ => ∀ r ∈ t.runs, r.runId = id → r.userId ≠ u
  | _ => ∀ j ∈ t.jobs, j.jobId = id → j.userId ≠ u

/-- How a call ends where the id that it names does not exist. -/
def notFound (libs : Libs) (u : String) (t : Tables) (id : Nat) : Call → Except Err (Result δ)
  | .create now args =>
    match planCreate libs now { args with userId := u } with
    | .error e => .error e
    | .ok _ =>
      match earlierJob t { args with userId := u } with
      | some job => .ok (.created (some job))
      | none => .error (.chainJobNotFound id)
  | .upstream _ => .ok (.payload .noResult)
  | _ => .error (.jobNotFound id)

end Call

/-- Two ends of one call are the same, or return new jobs that differ in the fresh key and the
timestamps. -/
def Result.Same {δ : Type} (seq seq' : Seq) (res res' : Except Err (Result δ)) : Prop :=
  res = res' ∨ ∃ j j' : Job, res = .ok (.created (some j)) ∧ res' = .ok (.created (some j')) ∧
    j.jobId = seq.jobs ∧ j'.jobId = seq'.jobs ∧
    j' = { j with jobId := j'.jobId, createdAt := j'.createdAt, updatedAt := j'.updatedAt }

/-- The database of a state. -/
def Sys.db (σ : Sys) : Db := ⟨σ.tables, σ.seq⟩

/-! ### Confined transactions -/

section Confined

variable {α : Type} {u : String} {start start' : Int} {pick pick' : Nat → Bool} {x y : Db}

/-- A transaction that goes the same way in the two databases ends alike in them, and leaves the
rows of the other users. -/
theorem alone_twin (hw : Twins u x.tables y.tables) {prog : Txn α}
    (h : ∀ d d', Alike u x.tables y.tables d d' →
      Twin pick pick' u x.tables y.tables (fun _ => Alike u x.tables y.tables) prog d d') :
    ∃ res x' y', x.alone start pick prog = some (res, x') ∧
      y.alone start' pick' prog = some (res, y') ∧ x'.tables.others u = x.tables.others u := by
  obtain ⟨⟨res, seq, ses⟩, hrun⟩ := Option.isSome_iff_exists.mp
    (run_isSome pick x.tables prog (x.seq, { start }))
  obtain ⟨⟨res', seq', ses'⟩, hrun'⟩ := Option.isSome_iff_exists.mp
    (run_isSome pick' y.tables prog (y.seq, { start := start' }))
  obtain ⟨rfl, hend⟩ := (h _ _ (.init hw x.seq y.seq start start')).run hrun hrun'
  cases res with
  | ok a =>
    refine ⟨.ok a, ⟨ses.view x.tables, seq⟩, ⟨ses'.view y.tables, seq'⟩, ?_, ?_, ?_⟩
    · simp only [Db.alone, hrun]
    · simp only [Db.alone, hrun']
    · exact (show Alike u x.tables y.tables (seq, ses) (seq', ses') from hend).left.others
  | error e =>
    refine ⟨.error e, { x with seq := seq }, { y with seq := seq' }, ?_, ?_, rfl⟩
    · simp only [Db.alone, hrun]
    · simp only [Db.alone, hrun']

theorem Twins.refl {t : Tables} (h : t.Whole) : Twins u t t := ⟨h, h, rfl⟩

theorem Twins.latestRunStatus {t t' : Tables} (hw : Twins u t t') {j : Job} (hj : j ∈ (t.of u).jobs) :
    latestRunStatus t j = TaskScheduler.latestRunStatus t' j := by
  have hj' : j ∈ (t'.of u).jobs := hw.agree ▸ hj
  obtain ⟨hleft, hu⟩ := List.mem_filter.mp hj
  rw [beq_iff_eq] at hu
  have hruns : (t.runs.filter fun r => r.userId == u) = t'.runs.filter fun r => r.userId == u :=
    congrArg Tables.runs hw.agree
  unfold TaskScheduler.latestRunStatus
  rw [filter_within (q := fun r => r.userId == u) fun r hr hrj => by
      simpa using hw.left.mine_run (hw.left.mine_self hleft hu) hr (by simpa using hrj),
    filter_within (l := t'.runs) (q := fun r => r.userId == u) fun r hr hrj => by
      simpa using hw.right.mine_run (hw.right.mine_self (List.mem_filter.mp hj').1 hu) hr
        (by simpa using hrj), hruns]

/-- The list of jobs is a function of the rows of its user. -/
theorem Twins.listJobs {t t' : Tables} (hw : Twins u t t') (f : ListFilter) :
    listJobs t t u f = TaskScheduler.listJobs t' t' u f := by
  have hjobs : (t.jobs.filter fun j => j.userId == u) = t'.jobs.filter fun j => j.userId == u :=
    congrArg Tables.jobs hw.agree
  have hmatch : t.jobs.filter (baseWhere t u f) = t'.jobs.filter (baseWhere t' u f) := by
    have hown : ∀ (s : Tables) (j : Job), baseWhere s u f j = true → (j.userId == u) = true := by
      intro s j hj
      simp only [baseWhere, Bool.and_eq_true] at hj
      exact hj.1.1.1
    rw [filter_within (q := fun j => j.userId == u) fun j _ => hown t j,
      filter_within (l := t'.jobs) (q := fun j => j.userId == u) fun j _ => hown t' j, ← hjobs]
    refine List.filter_congr fun j hj => ?_
    simp only [baseWhere, hw.latestRunStatus hj]
  have hpage : pageJobs t u f = pageJobs t' u f := by
    unfold pageJobs
    rw [← hmatch]
    refine List.map_congr_left fun j hj => ?_
    have hin := List.mem_of_mem_drop (List.mem_of_mem_take hj)
    rw [List.mem_insertionSort, List.mem_filter] at hin
    have hu : (j.userId == u) = true := by
      have := hin.2
      simp only [baseWhere, Bool.and_eq_true] at this
      exact this.1.1.1
    rw [hw.latestRunStatus (List.mem_filter.mpr ⟨hin.1, hu⟩)]
  unfold TaskScheduler.listJobs
  rw [hpage, countJobs, countJobs, hmatch]

end Confined

/-! ### Creation -/

section Create

variable {δ : Type} {cfg : Config} {loads : String → Option δ} {u : String} {start now : Int}
  {pick : Nat → Bool} {x : Db} {args : CreateArgs}

/-- Keys and owners of a database. -/
structure Db.Sound (x : Db) : Prop where
  coherent : Coherent x.tables x.seq
  owned : x.tables.Owned

theorem Db.Sound.whole (h : x.Sound) : x.tables.Whole :=
  ⟨h.owned, h.coherent.jobs.nodup, h.coherent.runs⟩

theorem Sys.Reach.sound_db {ok : Sys → Act → Prop} {σ : Sys} (h : Reach cfg ok σ) : σ.db.Sound :=
  ⟨h.interleaved.coherent, h.owned⟩

/-- The result and the tables of a creation that ends by a decision. -/
def CreateReturns (x : Db) (start : Int) (args : CreateArgs) :
    Except Err (Job ⊕ CreatePlan) → Except Err (Result δ) → Tables → Prop
  | .error e, res, t => res = .error e ∧ t = x.tables
  | .ok (.inl job), res, t => res = .ok (.created (some job)) ∧ t = x.tables
  | .ok (.inr plan), res, t => res = .ok (.created (some (newJob x.seq start args plan))) ∧
    t = x.tables.withNew x.seq start args plan

theorem createDecision_earlier {libs : Libs} {s : Tables} {job : Job}
    (h : createDecision libs now args s = .ok (.inl job)) : job ∈ s.jobs := by
  unfold createDecision at h
  split at h
  · cases h
  · split at h
    · next hjob =>
      cases h
      obtain ⟨key, -, hfind⟩ := Option.bind_eq_some_iff.mp hjob
      exact List.mem_of_find?_eq_some hfind
    · unfold newDecision at h
      split at h
      · cases h
      · split at h <;> cases h

theorem find_newJob {t : Tables} {seq : Seq} (hk : Coherent t seq) {plan : CreatePlan} :
    (t.withNew seq start args plan).job? seq.jobs = some (newJob seq start args plan) := by
  have hjobs : (t.withNew seq start args plan).jobs = t.jobs ++ [newJob seq start args plan] := by
    unfold Tables.withNew
    split <;> rfl
  have hnone : t.job? seq.jobs = none :=
    Tables.job?_eq_none fun j hj => by simpa using (hk.jobs.below j hj).ne
  rw [Tables.job?, hjobs, List.find?_append, ← Tables.job?, hnone]
  simp [newJob, storedJob]

theorem create_returns (cfg : Config) (loads : String → Option δ) (u : String) (start now : Int)
    (pick : Nat → Bool) (args : CreateArgs) {x : Db} (hx : x.Sound) :
    ∃ res x', (Call.create now args).run cfg loads u start pick x = some (res, x') ∧
      CreateReturns x start { args with userId := u }
        (createDecision cfg.libs now { args with userId := u } (x.tables.of u)) res x'.tables := by
  have hwp : (createJob cfg.libs now { args with userId := u }).wp (rowAccount Eq pick start) _ _
      ⟨x.tables, x.seq, none⟩ := wp_createJob hx.coherent hx.whole
  obtain ⟨res, y, hrun, hend⟩ := Db.alone_cases eq_aging hx.coherent.jobs hwp
  simp only [Call.run, hrun]
  rcases hend with ⟨id, rfl, hends⟩ | ⟨e, v, rfl, he, htab⟩
  · refine ⟨_, y, rfl, ?_⟩
    change CreateEnds x.tables x.seq start { args with userId := u }
      (createDecision cfg.libs now { args with userId := u } (x.tables.of u)) id y.tables at hends
    cases hdec : createDecision cfg.libs now { args with userId := u } (x.tables.of u) with
    | error e =>
      rw [hdec] at hends
      exact hends.elim
    | ok d =>
      rw [hdec] at hends
      cases d with
      | inl job =>
        obtain ⟨rfl, htab⟩ := hends
        have hmem := (List.mem_filter.mp (createDecision_earlier hdec)).1
        refine ⟨?_, htab⟩
        dsimp only
        rw [htab, Tables.job?_eq_some hx.coherent.jobs.nodup hmem]
      | inr plan =>
        obtain ⟨rfl, htab⟩ := hends
        refine ⟨?_, htab⟩
        dsimp only
        rw [htab, find_newJob hx.coherent]
  · refine ⟨_, y, rfl, ?_⟩
    change createDecision cfg.libs now { args with userId := u } (x.tables.of u) = .error e at he
    rw [he]
    exact ⟨rfl, htab⟩

/-- The rows of a new job are its user's. -/
theorem others_withNew {t : Tables} {seq : Seq} (hk : Coherent t seq) (plan : CreatePlan)
    (start : Int) (args : CreateArgs) :
    (t.withNew seq start args plan).others args.userId = t.others args.userId := by
  have huser : (newJob seq start args plan).userId = args.userId := rfl
  have hid : (newJob seq start args plan).jobId = seq.jobs := rfl
  -- the new job is of no event that the tables had
  have hmine : ∀ e ∈ t.events, ∀ s : Tables, s.jobs = t.jobs ++ [newJob seq start args plan] →
      s.mine args.userId e = t.mine args.userId e := by
    intro e he s hs
    obtain ⟨r, hr, -, hre⟩ := hk.event_run e he
    obtain ⟨j, hj, hjr⟩ := hk.run_job r hr
    have hne : seq.jobs ≠ e.jobId := fun heq =>
      (hk.jobs.below j hj).ne (hjr.trans (hre.trans heq.symm))
    simp [Tables.mine, hs, hid, hne]
  have hjobs : (t.jobs ++ [newJob seq start args plan]).filter (fun j => !(j.userId == args.userId))
      = t.jobs.filter fun j => !(j.userId == args.userId) := by
    simp [List.filter_append, huser]
  have hevents : ∀ s : Tables, s.jobs = t.jobs ++ [newJob seq start args plan] →
      (t.events.filter fun e => !s.mine args.userId e) =
        t.events.filter fun e => !t.mine args.userId e :=
    fun s hs => List.filter_congr fun e he => by rw [hmine e he s hs]
  cases hc : args.triggerOnJobId.isSome with
  | true =>
    have heq : t.withNew seq start args plan =
        { t with jobs := t.jobs ++ [newJob seq start args plan] } := by
      simp [Tables.withNew, hc]
    rw [heq]
    simp only [Tables.others, hjobs,
      hevents { t with jobs := t.jobs ++ [newJob seq start args plan] } rfl]
  | false =>
    let run := storedRun seq start (.new (newJob seq start args plan) plan.runAt .pending none)
    let event := storedEvent seq start (.new seq.runs seq.jobs .created none (some .pending) none)
    let s : Tables := { t with
      jobs := t.jobs ++ [newJob seq start args plan]
      runs := t.runs ++ [run]
      events := t.events ++ [event] }
    have heq : t.withNew seq start args plan = s := by
      simp [Tables.withNew, hc, s, run, event]
    have hrun : run.userId = args.userId := rfl
    have hevent : s.mine args.userId event = true := by
      simp [s, Tables.mine, huser, hid, event, storedEvent, RunEvent.new]
    have hruns : (t.runs ++ [run]).filter (fun r => !(r.userId == args.userId)) =
        t.runs.filter fun r => !(r.userId == args.userId) := by
      simp [List.filter_append, hrun]
    have hall : (t.events ++ [event]).filter (fun e => !s.mine args.userId e) =
        t.events.filter fun e => !t.mine args.userId e := by
      simp [List.filter_append, hevent, hevents s rfl]
    rw [heq]
    simp only [Tables.others, s, hjobs, hruns]
    rw [Tables.mk.injEq]
    exact ⟨rfl, rfl, hall⟩

/-- Where the trigger is no job of the user, the decision is that of a trigger that does not exist. -/
theorem createDecision_absent (libs : Libs) (now : Int) (args : CreateArgs) {t : Tables} {id : Nat}
    (htrigger : args.triggerOnJobId = some id)
    (habsent : ∀ j ∈ t.jobs, j.jobId = id → j.userId ≠ args.userId) :
    createDecision libs now args (t.of args.userId) =
      match planCreate libs now args with
      | .error e => .error e
      | .ok _ =>
        match earlierJob t args with
        | some job => .ok (.inl job)
        | none => .error (.chainJobNotFound id) := by
  have hnone : (t.of args.userId).jobs.find? (fun j => j.jobId == id) = none := by
    rw [List.find?_eq_none]
    intro j hj hid
    obtain ⟨hj, hu⟩ := List.mem_filter.mp hj
    exact habsent j hj (by simpa using hid) (by simpa using hu)
  unfold createDecision
  rw [earlierJob_of]
  cases planCreate libs now args with
  | error e => rfl
  | ok plan =>
    cases earlierJob t args with
    | some job => rfl
    | none => simp only [newDecision, htrigger, chainDecision, hnone]

end Create

/-! ### The calls -/

section Calls

variable {δ : Type} {cfg : Config} {loads : String → Option δ} {u : String} {start start' : Int}
  {pick pick' : Nat → Bool} {x y : Db}

theorem ending_twin {α β : Type} {prog : Txn α} (f : α → Db → β) (hf : ∀ a y y', f a y = f a y')
    (h : ∃ res x' y', x.alone start pick prog = some (res, x') ∧
      y.alone start' pick' prog = some (res, y') ∧ x'.tables.others u = x.tables.others u) :
    ∃ res x' y', Db.ending f (x.alone start pick prog) = some (res, x') ∧
      Db.ending f (y.alone start' pick' prog) = some (res, y') ∧
      x'.tables.others u = x.tables.others u := by
  obtain ⟨res, x', y', hx, hy, hothers⟩ := h
  rw [hx, hy]
  cases res with
  | ok a => exact ⟨.ok (f a x'), x', y', rfl, by rw [hf a x' y']; rfl, hothers⟩
  | error e => exact ⟨.error e, x', y', rfl, rfl, hothers⟩

/-- Two databases that agree on the rows of the user: the call ends alike, and leaves the others. -/
theorem Call.run_twin (c : Call) (hx : x.Sound) (hy : y.Sound)
    (hagree : x.tables.of u = y.tables.of u) : ∃ res x' res' y',
      c.run cfg loads u start pick x = some (res, x') ∧
      c.run cfg loads u start' pick' y = some (res', y') ∧ Result.Same x.seq y.seq res res' ∧
      x'.tables.others u = x.tables.others u := by
  have hw : Twins u x.tables y.tables := ⟨hx.whole, hy.whole, hagree⟩
  cases c with
  | create now args =>
    obtain ⟨res, x', hrun, hret⟩ := create_returns cfg loads u start now pick args hx
    obtain ⟨res', y', hrun', hret'⟩ := create_returns cfg loads u start' now pick' args hy
    refine ⟨res, x', res', y', hrun, hrun', ?_⟩
    rw [← hagree] at hret'
    cases hdec : createDecision cfg.libs now { args with userId := u } (x.tables.of u) with
    | error e =>
      rw [hdec] at hret hret'
      exact ⟨.inl (hret.1.trans hret'.1.symm), by rw [hret.2]⟩
    | ok d =>
      rw [hdec] at hret hret'
      cases d with
      | inl job => exact ⟨.inl (hret.1.trans hret'.1.symm), by rw [hret.2]⟩
      | inr plan =>
        refine ⟨.inr ⟨_, _, hret.1, hret'.1, rfl, rfl, rfl⟩, ?_⟩
        rw [hret.2]
        exact others_withNew hx.coherent plan start { args with userId := u }
  | cancel now jobId =>
    obtain ⟨res, x', y', hrun, hrun', hothers⟩ := ending_twin
      (fun view _ => Result.cancelled (δ := δ) view) (fun _ _ _ => rfl)
      (alone_twin hw fun _ _ h => cancelJob_twin hw now cfg.depth jobId h)
    exact ⟨res, x', res, y', hrun, hrun', .inl rfl, hothers⟩
  | status jobId includeRuns runLimit =>
    obtain ⟨res, x', y', hrun, hrun', hothers⟩ := ending_twin
      (fun view _ => Result.status (δ := δ) view) (fun _ _ _ => rfl)
      (alone_twin hw fun _ _ h => getJobWithRuns_twin hw jobId includeRuns runLimit h)
    exact ⟨res, x', res, y', hrun, hrun', .inl rfl, hothers⟩
  | list filter =>
    refine ⟨_, x, _, y, rfl, rfl, .inl ?_, rfl⟩
    rw [hw.listJobs]
  | upstream runId =>
    obtain ⟨res, x', y', hrun, hrun', hothers⟩ := ending_twin
      (fun payload _ => Result.payload (δ := δ) payload) (fun _ _ _ => rfl)
      (alone_twin hw fun _ _ h => readUpstream_twin loads runId h)
    exact ⟨res, x', res, y', hrun, hrun', .inl rfl, hothers⟩

/-- A transaction that can only raise raises, and leaves the tables. -/
theorem alone_refused {α : Type} {prog : Txn α} {err : Err} (hx : x.Sound)
    (hwp : prog.wp (rowAccount Eq pick start) (fun e _ => e = err) (fun _ _ => False)
      ⟨x.tables, x.seq, none⟩) :
    ∃ x', x.alone start pick prog = some (.error err, x') ∧ x'.tables = x.tables := by
  obtain ⟨_, x', hrun, ⟨_, _, hfalse⟩ | ⟨_, _, rfl, rfl, htab⟩⟩ :=
    Db.alone_cases (Q := fun _ _ => False) eq_aging hx.coherent.jobs hwp
  · exact hfalse.elim
  · exact ⟨x', hrun, htab⟩

/-- A call that names an id of which the user has no row ends as for an id that does not exist, and
changes nothing. -/
theorem Call.run_absent (c : Call) (hx : x.Sound) {id : Nat} (hid : c.id = some id)
    (habsent : c.Absent u x.tables id) : ∃ x', c.run cfg loads u start pick x =
      some (c.notFound cfg.libs u x.tables id, x') ∧ x'.tables = x.tables := by
  have hjobs : (∀ j ∈ x.tables.jobs, j.jobId = id → j.userId ≠ u) →
      x.tables.jobs.filter (fun j => j.jobId == id && j.userId == u) = [] := by
    intro h
    rw [List.filter_eq_nil_iff]
    rintro j hj hp
    rw [Bool.and_eq_true, beq_iff_eq, beq_iff_eq] at hp
    exact h j hj hp.1 hp.2
  cases c with
  | create now args =>
    obtain ⟨res, x', hrun, hret⟩ := create_returns cfg loads u start now pick args hx
    have habsent' := createDecision_absent cfg.libs now { args with userId := u } hid habsent
    rw [habsent'] at hret
    refine ⟨x', ?_⟩
    rw [hrun]
    simp only [Call.notFound]
    cases hplan : planCreate cfg.libs now { args with userId := u } with
    | error e =>
      rw [hplan] at hret
      exact ⟨by rw [hret.1], hret.2⟩
    | ok plan =>
      rw [hplan] at hret
      cases hjob : earlierJob x.tables { args with userId := u } with
      | some job =>
        simp only [hjob] at hret
        exact ⟨by rw [hret.1], hret.2⟩
      | none =>
        simp only [hjob] at hret
        exact ⟨by rw [hret.1], hret.2⟩
  | cancel now jobId =>
    obtain rfl : jobId = id := Option.some.inj hid
    have hwp : (cancelJob now cfg.depth u jobId).wp (rowAccount Eq pick start)
        (fun e _ => e = .jobNotFound jobId) (fun _ _ => False) ⟨x.tables, x.seq, none⟩ := by
      unfold cancelJob
      simp only [Program.wp_bind, wp_loadJobs, List.forall₂_eq_eq_eq, hjobs habsent]
      rintro _ rfl
      rfl
    obtain ⟨x', hrun, htab⟩ := alone_refused hx hwp
    exact ⟨x', by simp only [Call.run, hrun]; rfl, htab⟩
  | status jobId includeRuns runLimit =>
    obtain rfl : jobId = id := Option.some.inj hid
    have hwp : (getJobWithRuns u jobId includeRuns runLimit).wp (rowAccount Eq pick start)
        (fun e _ => e = .jobNotFound jobId) (fun _ _ => False) ⟨x.tables, x.seq, none⟩ := by
      unfold getJobWithRuns
      simp only [Program.wp_bind, wp_loadJobs, List.forall₂_eq_eq_eq, hjobs habsent]
      rintro _ rfl
      rfl
    obtain ⟨x', hrun, htab⟩ := alone_refused hx hwp
    exact ⟨x', by simp only [Call.run, hrun]; rfl, htab⟩
  | list filter => cases hid
  | upstream runId =>
    obtain rfl : runId = id := Option.some.inj hid
    have hruns : x.tables.runs.filter (fun r => r.runId == runId && r.userId == u) = [] := by
      rw [List.filter_eq_nil_iff]
      rintro r hr hp
      rw [Bool.and_eq_true, beq_iff_eq, beq_iff_eq] at hp
      exact habsent r hr hp.1 hp.2
    have hwp : (readUpstream loads runId u).wp (rowAccount Eq pick start)
        (fun _ _ => False) (fun a v => a = .noResult ∧ v.tables = x.tables)
        ⟨x.tables, x.seq, none⟩ := by
      unfold readUpstream
      simp only [Program.wp_bind, wp_selectRuns, hruns]
      exact ⟨rfl, rfl⟩
    obtain ⟨_, x', hrun, rfl, htab⟩ := Db.alone_ok
      (Q := fun (a : UpstreamPayload δ) t => a = .noResult ∧ t = x.tables)
      eq_aging hx.coherent.jobs hwp
    exact ⟨x', by simp only [Call.run, hrun]; rfl, htab⟩

end Calls

/-! ### The theorem -/

/-- What a call of one user says and does, in two reachable states that agree on the user's rows. -/
structure Apart {δ : Type} (cfg : Config) (loads : String → Option δ) (u : String) (c : Call)
    (start start' : Int) (pick pick' : Nat → Bool) (σ σ' : Sys) : Prop where
  same : ∃ res x res' x', c.run cfg loads u start pick σ.db = some (res, x) ∧
    c.run cfg loads u start' pick' σ'.db = some (res', x') ∧
    Result.Same σ.seq σ'.seq res res' ∧ x.tables.others u = σ.tables.others u
  absent : ∀ id, c.id = some id → c.Absent u σ.tables id → ∃ x,
    c.run cfg loads u start pick σ.db = some (c.notFound cfg.libs u σ.tables id, x)

/-- Tenants do not interfere: every row has the owner of what it hangs on, two reachable states that
agree on a user's rows give the user's calls the same results, the calls leave the rows of the other
users, and an id of another user is answered as one that does not exist. -/
theorem tenants_apart {δ : Type} (cfg : Config) (loads : String → Option δ) :
    (∀ σ, Sys.Reach cfg Sys.any σ → σ.tables.Owned) ∧
    ∀ σ σ' u, Sys.Reach cfg Sys.any σ → Sys.Reach cfg Sys.any σ' → σ.tables.of u = σ'.tables.of u →
      ∀ c start start' pick pick', Apart cfg loads u c start start' pick pick' σ σ' := by
  refine ⟨fun σ h => h.owned, fun σ σ' u hσ hσ' hagree c start start' pick pick' => ⟨?_, ?_⟩⟩
  · exact c.run_twin hσ.sound_db hσ'.sound_db hagree
  · intro id hid habsent
    obtain ⟨x, hrun, -⟩ := c.run_absent hσ.sound_db hid habsent
    exact ⟨x, hrun⟩

/-- Bob creates a job after Alice's: her cancel does what it did without it, and his job is none. -/
theorem alice_apart : ∃ σ σ', Sys.runActs .minutely {} [.at 0 (.create 0 (.echo none none none))] =
      some σ ∧ σ.step .minutely (.at 1 (.create 1 { CreateArgs.echo none none none with
        userId := "bob" })) = some σ' ∧
    Apart .minutely some "alice" (.cancel 2 1) 2 3 (fun _ => true) (fun _ => true) σ σ' ∧
    ∃ x, (Call.status 2 true 10).run .minutely some "alice" 2 (fun _ => true) σ'.db =
      some (.error (.jobNotFound 2), x) := by
  have hsome : ((Sys.runActs .minutely {} [.at 0 (.create 0 (.echo none none none))]).bind fun σ =>
      (σ.step .minutely (.at 1 (.create 1 { CreateArgs.echo none none none with
        userId := "bob" }))).map fun σ' => (decide (σ.tables.of "alice" = σ'.tables.of "alice"),
          σ'.tables.jobs.all fun j => j.jobId != 2 || j.userId != "alice")) =
      some (true, true) := by decide +kernel
  obtain ⟨σ, hσ, hrest⟩ := Option.bind_eq_some_iff.mp hsome
  obtain ⟨σ', hσ', hrows⟩ := Option.map_eq_some_iff.mp hrest
  simp only [Prod.mk.injEq, decide_eq_true_eq] at hrows
  obtain ⟨hagree, hnone⟩ := hrows
  have hreach : Sys.Reach .minutely Sys.any σ := Sys.Reach.init.runActs (fun _ _ _ => trivial) hσ
  have hreach' : Sys.Reach .minutely Sys.any σ' := hreach.step trivial hσ'
  refine ⟨σ, σ', hσ, hσ', (tenants_apart .minutely some).2 σ σ' "alice" hreach hreach' hagree
    (.cancel 2 1) 2 3 (fun _ => true) (fun _ => true), ?_⟩
  refine ((tenants_apart .minutely some).2 σ' σ' "alice" hreach' hreach' rfl (.status 2 true 10) 2 2
    (fun _ => true) (fun _ => true)).absent 2 rfl fun j hj hid hu => ?_
  simpa [hid, hu] using List.all_eq_true.mp hnone j hj

end TaskScheduler
