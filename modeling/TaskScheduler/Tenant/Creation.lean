import TaskScheduler.Tenant.Slice

/-! What `create_job` does, as a function of the rows of its user: which exception it raises, which
job of an earlier call it returns, or which rows it adds.  The check of the trigger loads a row by
its id alone, and the ancestors are walked with no filter on the user; neither shows, since a
trigger of another user is refused like a missing one, and the ancestors of one of the user's jobs
are the user's. -/

namespace TaskScheduler

open Lib

/-! ### The decision -/

/-- The checks of `validate_chain`, on the rows of the user. -/
def chainDecision (s : Tables) (triggerOnJobId : Nat) : Except Err Unit :=
  match s.jobs.find? fun j => j.jobId == triggerOnJobId with
  | none => .error (.chainJobNotFound triggerOnJobId)
  | some triggerJob =>
    if triggerJob.state != .active then .error (.chainJobTerminated triggerOnJobId)
    else
      let row := ancestorsOf s.jobs triggerOnJobId (maxChainDepth + 2)
      if row.2 then .error (.chainCycle triggerOnJobId)
      else if row.1.getD 0 ≥ maxChainDepth then .error (.chainDepth triggerOnJobId)
      else .ok ()

/-- The job that an earlier call of the user created. -/
def earlierJob (s : Tables) (args : CreateArgs) : Option Job :=
  args.idempotencyKey.bind fun key =>
    s.jobs.find? fun j => j.idempotencyKey == some key && j.userId == args.userId

/-- How `create_job` ends where no earlier call of the user created the job. -/
def newDecision (args : CreateArgs) (plan : CreatePlan) (s : Tables) :
    Except Err (Job ⊕ CreatePlan) :=
  match args.triggerOnJobId with
  | none => .ok (.inr plan)
  | some triggerOnJobId =>
    match chainDecision s triggerOnJobId with
    | .error e => .error e
    | .ok () => .ok (.inr plan)

/-- How `create_job` ends where the user has the rows `s`: an exception, the job of an earlier call,
or a new job by the plan. -/
def createDecision (libs : Libs) (now : Int) (args : CreateArgs) (s : Tables) :
    Except Err (Job ⊕ CreatePlan) :=
  match planCreate libs now args with
  | .error e => .error e
  | .ok plan =>
    match earlierJob s args with
    | some job => .ok (.inl job)
    | none => newDecision args plan s

/-- The job that a creation inserts. -/
def newJob (seq : Seq) (start : Int) (args : CreateArgs) (plan : CreatePlan) : Job :=
  storedJob seq start (.new args plan)

/-- The tables with a new job, and with the first run of one that is not chained. -/
def Tables.withNew (t : Tables) (seq : Seq) (start : Int) (args : CreateArgs) (plan : CreatePlan) :
    Tables :=
  let job := newJob seq start args plan
  let t := { t with jobs := t.jobs ++ [job] }
  if args.triggerOnJobId.isSome then t
  else
    { t with
      runs := t.runs ++ [storedRun seq start (.new job plan.runAt .pending none)]
      events := t.events ++ [storedEvent seq start
        (.new seq.runs seq.jobs .created none (some .pending) none)] }

/-- The job and the tables with which `create_job` returns by a decision. -/
def CreateEnds (t : Tables) (seq : Seq) (start : Int) (args : CreateArgs) :
    Except Err (Job ⊕ CreatePlan) → Nat → Tables → Prop
  | .error _, _, _ => False
  | .ok (.inl job), id, t' => id = job.jobId ∧ t' = t
  | .ok (.inr plan), id, t' => id = seq.jobs ∧ t' = t.withNew seq start args plan

/-! ### The walk of the ancestors -/

namespace Tables

variable {t : Tables} {u : String} {id : Nat}

theorem find_of (hm : t.Mine u id) :
    (t.of u).jobs.find? (fun j => j.jobId == id) = t.jobs.find? fun j => j.jobId == id := by
  rw [← List.head?_filter, ← List.head?_filter]
  refine congrArg List.head? (filter_within fun j hj hid => ?_).symm
  simpa using hm j hj (by simpa using hid)

theorem Whole.ancestorWalk_of (h : t.Whole) (n : Nat) {job : Job} (hj : job ∈ t.jobs)
    (hu : job.userId = u) (path : List Nat) (depth : Nat) :
    ancestorWalk (t.of u).jobs n job path depth = ancestorWalk t.jobs n job path depth := by
  induction n generalizing job path depth with
  | zero => rfl
  | succ n ih =>
    cases hp : job.triggerOnJobId with
    | none => simp only [ancestorWalk, hp, Option.bind_none]
    | some p =>
      have hm := h.mine_parent hj hu hp
      simp only [ancestorWalk, hp, Option.bind_some, find_of hm]
      cases hfind : t.jobs.find? fun j => j.jobId == p with
      | none => rfl
      | some parent =>
        have hparent := List.mem_of_find?_eq_some hfind
        dsimp only
        rw [ih hparent (hm parent hparent (by simpa using List.find?_some hfind))]

theorem Whole.ancestorsOf_of (h : t.Whole) (hm : t.Mine u id) (limit : Nat) :
    ancestorsOf (t.of u).jobs id limit = ancestorsOf t.jobs id limit := by
  simp only [ancestorsOf, find_of hm]
  cases hfind : t.jobs.find? fun j => j.jobId == id with
  | none => rfl
  | some job =>
    have hj := List.mem_of_find?_eq_some hfind
    dsimp only
    rw [h.ancestorWalk_of _ hj (hm job hj (by simpa using List.find?_some hfind))]

end Tables

/-! ### The transaction -/

section Create

variable {pick : Nat → Bool} {start now : Int} {v : View} {libs : Libs} {args : CreateArgs}
  {plan : CreatePlan}

/-- A row with the next key clashes with none that has no key of its own user. -/
theorem newJob_unclashed (hearlier : earlierJob v.tables args = none) :
    v.tables.jobs.any (newJob v.seq start args plan).clashes = false := by
  rw [List.any_eq_false]
  intro j hj hclash
  simp only [Job.clashes, Bool.and_eq_true, beq_iff_eq] at hclash
  obtain ⟨⟨huser, hsome⟩, hkey⟩ := hclash
  obtain ⟨key, hk⟩ := Option.isSome_iff_exists.mp hsome
  change args.idempotencyKey = some key at hk
  change args.idempotencyKey = j.idempotencyKey at hkey
  change args.userId = j.userId at huser
  rw [earlierJob, hk, Option.bind_some, List.find?_eq_none] at hearlier
  exact hearlier j hj (by simp [← hkey, hk, huser])

theorem newJob_consistent : (newJob v.seq start args plan).scheduleConsistent = true := by
  simp only [newJob, storedJob, Job.new, Job.scheduleConsistent]
  cases plan.cronExpr <;> simp

/-- The insert goes through, with the next keys. -/
theorem wp_insertNewJob (hk : Coherent v.tables v.seq) (hearlier : earlierJob v.tables args = none)
    {E : Err → View → Prop} : (insertNewJob args plan).wp (rowAccount Eq pick start) E
      (fun id v' => id = v.seq.jobs ∧ v'.tables = v.tables.withNew v.seq start args plan) v := by
  -- the tables have no run of the new job
  have hnone : ∀ r ∈ v.tables.runs, r.jobId ≠ v.seq.jobs := by
    intro r hr heq
    obtain ⟨j, hj, hjr⟩ := hk.run_job r hr
    exact absurd (hjr.trans heq) (hk.jobs.below j hj).ne
  unfold insertNewJob
  rw [Program.wp_bind]
  refine wp_insertJob (fun hbad => ?_) fun _ => ?_
  · have hclash : v.tables.jobs.any (storedJob v.seq start (.new args plan)).clashes = false :=
      newJob_unclashed hearlier
    have hcons : (storedJob v.seq start (.new args plan)).scheduleConsistent = true :=
      newJob_consistent
    rw [hclash, hcons] at hbad
    cases hbad
  · cases htrigger : args.triggerOnJobId with
    | some p =>
      refine ⟨rfl, ?_⟩
      rw [Tables.withNew, htrigger]
      rfl
    | none =>
      simp only [Option.isNone_none, if_true, Program.wp_bind, materializeInitial]
      refine wp_spawnRun (fun hbusy => ?_) (fun _ hclash => ?_) fun _ _ => ?_
      · obtain ⟨r, hr, hjob, -⟩ := hbusy
        exact (hnone r hr hjob).elim
      · obtain ⟨r, hr, hc⟩ := List.any_eq_true.mp hclash
        simp only [JobRun.clashes, Bool.and_eq_true, beq_iff_eq] at hc
        exact (hnone r hr hc.1.symm).elim
      · refine ⟨rfl, ?_⟩
        rw [Tables.withNew, htrigger]
        rfl

/-- The chain check raises what the user's rows decide. -/
theorem wp_validateChain (ht : v.tables.Whole) {E : Err → View → Prop} {Q : Unit → View → Prop}
    {userId : String} {p : Nat}
    (refused : ∀ e, chainDecision (v.tables.of userId) p = .error e → E e v)
    (passed : chainDecision (v.tables.of userId) p = .ok () → Q () v) :
    (validateChain userId p).wp (rowAccount Eq pick start) E Q v := by
  unfold validateChain
  simp only [Program.wp_bind, wp_loadJobs, List.forall₂_eq_eq_eq]
  rintro _ rfl
  rw [List.head?_filter]
  cases hfind : v.tables.jobs.find? fun j => j.jobId == p with
  | none =>
    refine refused _ ?_
    have hnone : (v.tables.of userId).jobs.find? (fun j => j.jobId == p) = none := by
      rw [List.find?_eq_none] at hfind ⊢
      exact fun j hj => hfind j (List.mem_filter.mp hj).1
    rw [chainDecision, hnone]
  | some triggerJob =>
    have hmem := List.mem_of_find?_eq_some hfind
    have hid : triggerJob.jobId = p := by simpa using List.find?_some hfind
    dsimp only
    by_cases hu : triggerJob.userId = userId
    · have hm : v.tables.Mine userId p := hid ▸ ht.mine_self hmem hu
      have hdec : chainDecision (v.tables.of userId) p =
          if triggerJob.state != .active then .error (.chainJobTerminated p)
          else if (ancestorsOf v.tables.jobs p (maxChainDepth + 2)).2 then .error (.chainCycle p)
          else if (ancestorsOf v.tables.jobs p (maxChainDepth + 2)).1.getD 0 ≥ maxChainDepth then
            .error (.chainDepth p)
          else .ok () := by
        rw [chainDecision, Tables.find_of hm, hfind, ht.ancestorsOf_of hm]
      rw [hdec] at refused passed
      rw [if_neg (by simpa using hu)]
      split
      · next hs => exact refused _ (if_pos hs)
      · next hs =>
        rw [if_neg hs] at refused passed
        simp only [Program.wp_bind, wp_ancestors]
        split
        · next hc => exact refused _ (if_pos hc)
        · next hc =>
          rw [if_neg hc] at refused passed
          split
          · next hd => exact refused _ (if_pos hd)
          · next hd => exact passed (if_neg hd)
    · -- the row is of another user: the slice has no job with this id
      rw [if_pos (by simpa using hu)]
      refine refused _ ?_
      have hnone : (v.tables.of userId).jobs.find? (fun j => j.jobId == p) = none := by
        rw [List.find?_eq_none]
        intro j hj hjp
        obtain ⟨hj, hju⟩ := List.mem_filter.mp hj
        rw [beq_iff_eq] at hjp hju
        rw [List.inj_on_of_nodup_map ht.jobs hj hmem (hjp.trans hid.symm)] at hju
        exact hu hju
      rw [chainDecision, hnone]

theorem earlierJob_of (t : Tables) (args : CreateArgs) :
    earlierJob (t.of args.userId) args = earlierJob t args := by
  unfold earlierJob
  congr 1
  funext key
  rw [← List.head?_filter, ← List.head?_filter]
  refine congrArg List.head? (filter_within fun j _ hj => ?_).symm
  rw [Bool.and_eq_true] at hj
  exact hj.2

/-- `create_job` ends as the rows of its user decide. -/
theorem wp_createJob (hk : Coherent v.tables v.seq) (ht : v.tables.Whole) :
    (createJob libs now args).wp (rowAccount Eq pick start)
      (fun e _ => createDecision libs now args (v.tables.of args.userId) = .error e)
      (fun id v' => CreateEnds v.tables v.seq start args
        (createDecision libs now args (v.tables.of args.userId)) id v'.tables) v := by
  unfold createJob createDecision
  rw [earlierJob_of]
  cases hplan : planCreate libs now args with
  | error e => rfl
  | ok plan =>
    have hnew : earlierJob v.tables args = none → (createNew args plan).wp (rowAccount Eq pick start)
        (fun e _ => newDecision args plan (v.tables.of args.userId) = .error e)
        (fun id v' => CreateEnds v.tables v.seq start args
          (newDecision args plan (v.tables.of args.userId)) id v'.tables) v := by
      intro hearlier
      unfold createNew newDecision
      cases args.triggerOnJobId with
      | none => exact wp_insertNewJob hk hearlier
      | some p =>
        rw [Program.wp_bind]
        refine wp_validateChain ht (fun e he => ?_) fun hpass => ?_
        · simp only [he]
        · simp only [hpass]
          exact wp_insertNewJob hk hearlier
    rw [Program.wp_bind]
    unfold existingJob
    cases hkey : args.idempotencyKey with
    | none =>
      have hearlier : earlierJob v.tables args = none := by rw [earlierJob, hkey]; rfl
      rw [hearlier]
      exact hnew hearlier
    | some key =>
      have hearlier : earlierJob v.tables args = (v.tables.jobs.filter fun j =>
          j.idempotencyKey == some key && j.userId == args.userId).head? := by
        rw [earlierJob, hkey, List.head?_filter]
        rfl
      simp only [Program.wp_bind, wp_loadJobs, List.forall₂_eq_eq_eq, Program.pure_eq, Program.wp_ret]
      rintro _ rfl
      rw [← hearlier]
      cases hjob : earlierJob v.tables args with
      | some job => exact ⟨rfl, rfl⟩
      | none => exact hnew hjob

end Create

end TaskScheduler
