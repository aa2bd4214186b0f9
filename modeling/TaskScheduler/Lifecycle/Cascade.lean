import TaskScheduler.Batch.Body
import TaskScheduler.Lib.Pointwise

/-! The settle cascade, exactly.  A settle check of a job that may settle completes the job and every
job below it along trigger edges through jobs that are active, without a schedule and idle, and
changes nothing else; the edges may form cycles.  Each level of the recursion leaves one active job
less, so it ends. -/

namespace TaskScheduler

open Lib

namespace Tables

/-- The job is active, has no schedule of its own, and executes nothing. -/
def spent (t : Tables) (j : Job) : Bool :=
  j.state == .active && j.cronExpr.isNone && !t.busy j.jobId

/-- The jobs that a cascade reaches from job `id`: that job, and what hangs below it, through spent
jobs only. -/
inductive Below (t : Tables) (id : Nat) : Nat → Prop
  | self {j : Job} (hj : j ∈ t.jobs) (hid : j.jobId = id) (hs : t.spent j = true) : Below t id id
  | next {p : Nat} {d : Job} (hp : Below t id p) (hd : d ∈ t.jobs) (htrigger : d.triggerOnJobId = some p)
    (hs : t.spent d = true) : Below t id d.jobId

/-- The jobs that a settle check of job `id` completes: none where the job is not spent or has an
active trigger parent. -/
def Released (t : Tables) (jobId id : Nat) : Prop :=
  (∃ j ∈ t.jobs, j.jobId = jobId ∧ t.parentActive j = false) ∧ Below t jobId id

/-- The number of active jobs. -/
def activeCount (t : Tables) : Nat := t.jobs.countP fun j => j.state == .active

/-- The tables with the jobs `ids` settled. -/
def settled (t : Tables) (now : Int) (ids : List Nat) : Tables :=
  (Write.updateJobs ids (Job.settle now)).apply t

variable {t : Tables} {now : Int} {ids : List Nat} {id x : Nat}

/-- What hangs below a child of a spent job hangs below the job. -/
theorem Below.child {p : Nat} {d : Job} (h : Below t id p) (hd : d ∈ t.jobs)
    (htrigger : d.triggerOnJobId = some p) (hx : Below t d.jobId x)
    (hkeys : (t.jobs.map (·.jobId)).Nodup) : Below t id x := by
  induction hx with
  | self hj hid hs =>
    rw [List.inj_on_of_nodup_map hkeys hj hd hid] at hs
    exact .next h hd htrigger hs
  | next _ hd' htrigger' hs' ih => exact .next ih hd' htrigger' hs'

/-! ### Settled tables -/

theorem mem_settled {j' : Job} :
    j' ∈ (t.settled now ids).jobs ↔
      ∃ j ∈ t.jobs, (if j.jobId ∈ ids then j.settle now else j) = j' :=
  List.mem_map

theorem settled_nil : t.settled now [] = t := by
  simp [settled, Write.apply]

theorem settled_append (ids ids' : List Nat) :
    (t.settled now ids).settled now ids' = t.settled now (ids ++ ids') := by
  have hjob : ∀ j : Job, (if (if j.jobId ∈ ids then j.settle now else j).jobId ∈ ids' then
      (if j.jobId ∈ ids then j.settle now else j).settle now
      else if j.jobId ∈ ids then j.settle now else j) =
        if j.jobId ∈ ids ++ ids' then j.settle now else j := by
    intro j
    by_cases hin : j.jobId ∈ ids
    · by_cases hin' : j.jobId ∈ ids' <;> simp [hin, hin', Job.settle]
    · simp [hin]
  simp only [settled, Write.apply, List.map_map, Tables.mk.injEq, and_true]
  exact List.map_congr_left fun j _ => hjob j

theorem setJob_eq_settled : t.setJob id (Job.settle now) = t.settled now [id] := by
  simp [setJob, settled, Write.apply]

theorem settled_keys : (t.settled now ids).jobs.map (·.jobId) = t.jobs.map (·.jobId) := by
  refine map_key_eq fun j _ => ?_
  split <;> rfl

theorem settled_busy : (t.settled now ids).busy id = t.busy id := rfl

/-- The row of a job that is not among the settled ones. -/
theorem job?_settled (hkeys : (t.jobs.map (·.jobId)).Nodup) {j : Job} (hj : j ∈ t.jobs) :
    (t.settled now ids).job? j.jobId = some (if j.jobId ∈ ids then j.settle now else j) := by
  have hmem : (if j.jobId ∈ ids then j.settle now else j) ∈ (t.settled now ids).jobs :=
    mem_settled.mpr ⟨j, hj, rfl⟩
  have hid : (if j.jobId ∈ ids then j.settle now else j).jobId = j.jobId := by
    split <;> rfl
  have hfind := job?_eq_some (t := t.settled now ids) (by rw [settled_keys]; exact hkeys) hmem
  rwa [hid] at hfind

/-- A settled job is not settled again. -/
theorem settles_settle (j : Job) : t.settles (j.settle now) = false := by
  simp [settles, Job.settle]

theorem activeCount_settled :
    (t.settled now ids).activeCount = t.jobs.countP fun j => j.state == .active && j.jobId ∉ ids := by
  simp only [activeCount, settled, Write.apply, List.countP_map]
  refine congrArg (fun p => List.countP p t.jobs) (funext fun j => ?_)
  by_cases hin : j.jobId ∈ ids
  · simp [hin, Job.settle]
  · simp [hin]

theorem activeCount_settled_le : (t.settled now ids).activeCount ≤ t.activeCount := by
  rw [activeCount_settled]
  refine List.countP_mono_left fun j _ h => ?_
  rw [Bool.and_eq_true] at h
  exact h.1

/-- Settling an active job leaves one active job less. -/
theorem activeCount_settled_lt {j : Job} (hj : j ∈ t.jobs) (hactive : j.state = .active)
    (hin : j.jobId ∈ ids) : (t.settled now ids).activeCount < t.activeCount := by
  rw [activeCount_settled]
  refine countP_lt (fun i _ h => ?_) hj (by simpa using hactive) (by simp [hin])
  rw [Bool.and_eq_true] at h
  exact h.1

/-! ### The cascade -/

/-- What a part of the cascade adds to the jobs that are settled already: the jobs `more` are below
one of the jobs that it visits, and what hangs below them is settled too. -/
structure Adds (t : Tables) (visited ids more : List Nat) : Prop where
  kept : ∀ x ∈ ids, x ∈ more
  below : ∀ x ∈ more, x ∈ ids ∨ ∃ id ∈ visited, Below t id x
  closed : ∀ p ∈ more, p ∉ ids → ∀ d ∈ t.jobs, d.triggerOnJobId = some p → t.spent d = true →
    d.jobId ∈ more

theorem Adds.refl (t : Tables) (visited ids : List Nat) : Adds t visited ids ids :=
  ⟨fun _ h => h, fun _ h => .inl h, fun _ h hnot => absurd h hnot⟩

theorem Adds.trans {visited visited' ids ids' ids'' : List Nat} (h : Adds t visited ids ids')
    (h' : Adds t visited' ids' ids'') : Adds t (visited ++ visited') ids ids'' where
  kept x hx := h'.kept x (h.kept x hx)
  below x hx := by
    rcases h'.below x hx with hx | ⟨id, hid, hbelow⟩
    · rcases h.below x hx with hx | ⟨id, hid, hbelow⟩
      · exact .inl hx
      · exact .inr ⟨id, List.mem_append_left _ hid, hbelow⟩
    · exact .inr ⟨id, List.mem_append_right _ hid, hbelow⟩
  closed p hp hnot d hd htrigger hs := by
    by_cases hin : p ∈ ids'
    · exact h'.kept _ (h.closed p hin hnot d hd htrigger hs)
    · exact h'.closed p hp hin d hd htrigger hs

/-- One settle check, where the jobs `ids` are settled already: it ends, and the job is settled if it
is spent and its trigger parent is not active. -/
def Cascades (t : Tables) (now : Int) (depth : Nat) : Prop :=
  ∀ id ids, (t.settled now ids).activeCount < depth → ∃ more,
    (t.settled now ids).settle now depth id = .ok (t.settled now more) ∧ Adds t [id] ids more ∧
      ∀ j ∈ t.jobs, j.jobId = id → t.spent j = true → (t.settled now ids).parentActive j = false →
        id ∈ more

/-- The loop over the children of a settled job settles every spent child. -/
theorem Cascades.forM {depth : Nat} (h : Cascades t now depth) (hkeys : (t.jobs.map (·.jobId)).Nodup)
    {parent : Nat} (cs : List Job) (hcs : ∀ c ∈ cs, ∃ d ∈ t.jobs, d.jobId = c.jobId ∧
      d.triggerOnJobId = some parent) (hparent : parent ∈ ids)
    (hactive : (t.settled now ids).activeCount < depth) : ∃ more,
    cs.foldlM (fun s c => s.settle now depth c.jobId) (t.settled now ids) =
        .ok (t.settled now more) ∧ Adds t (cs.map (·.jobId)) ids more ∧
      ∀ c ∈ cs, ∀ d ∈ t.jobs, d.jobId = c.jobId → t.spent d = true → d.jobId ∈ more := by
  induction cs generalizing ids with
  | nil => exact ⟨ids, rfl, .refl t _ ids, by simp⟩
  | cons c cs ih =>
    obtain ⟨ids₁, hrun, hadds, hself⟩ := h c.jobId ids hactive
    have hle : (t.settled now ids₁).activeCount ≤ (t.settled now ids).activeCount := by
      rw [activeCount_settled, activeCount_settled]
      refine List.countP_mono_left fun j _ hj => ?_
      simp only [Bool.and_eq_true, decide_eq_true_eq] at hj ⊢
      exact ⟨hj.1, fun hin => hj.2 (hadds.kept _ hin)⟩
    obtain ⟨more, hrest, hadds', hall⟩ := ih (fun d hd => hcs d (List.mem_cons_of_mem _ hd))
      (hadds.kept _ hparent) (hle.trans_lt hactive)
    refine ⟨more, ?_, hadds.trans hadds', fun d hd => ?_⟩
    · rw [List.foldlM_cons, hrun]
      exact hrest
    · rcases List.mem_cons.mp hd with rfl | hd
      · intro i hi hid hs
        obtain ⟨i', hi', hid', htrigger⟩ := hcs d List.mem_cons_self
        obtain rfl := List.inj_on_of_nodup_map hkeys hi hi' (hid.trans hid'.symm)
        -- the parent is settled, so it is not active
        have hpa : (t.settled now ids).parentActive i = false := by
          rw [parentActive, htrigger, Option.any_some]
          cases hp : (t.settled now ids).job? parent with
          | none => rfl
          | some p =>
            obtain ⟨hpmem, hpid⟩ := job?_mem hp
            obtain ⟨q, -, rfl⟩ := mem_settled.mp hpmem
            have hqid : q.jobId = parent := by
              rw [← hpid]
              split <;> rfl
            rw [if_pos (hqid ▸ hparent)]
            rfl
        exact hid ▸ hadds'.kept _ (hself i hi hid hs hpa)
      · exact hall d hd

/-- The settle check of every depth that the active jobs do not exhaust. -/
theorem cascades (hkeys : (t.jobs.map (·.jobId)).Nodup) (now : Int) (depth : Nat) :
    Cascades t now depth := by
  induction depth with
  | zero => exact fun id ids h => absurd h (Nat.not_lt_zero _)
  | succ depth ih =>
    intro id ids hactive
    -- the row of the job, if it is not settled yet, is the one of the table
    have hrow : ∀ j, (t.settled now ids).job? id = some j → (t.settled now ids).settles j = true →
        j ∈ t.jobs ∧ j.jobId = id ∧ id ∉ ids ∧ t.spent j = true := by
      intro j hj hs
      obtain ⟨hmem, hid⟩ := job?_mem hj
      obtain ⟨i, hi, hij⟩ := mem_settled.mp hmem
      split at hij
      · rw [← hij, settles_settle] at hs
        cases hs
      · next hnot =>
        subst hij
        refine ⟨hi, hid, hid ▸ hnot, ?_⟩
        simp only [settles, Bool.and_eq_true] at hs
        simp only [spent, Bool.and_eq_true]
        exact ⟨hs.1.1, hs.1.2⟩
    by_cases hsettles : ((t.settled now ids).job? id).any (t.settled now ids).settles = true
    · obtain ⟨j, hj, hs⟩ := (Option.any_eq_true _ _).mp hsettles
      obtain ⟨hmem, rfl, hnot, hspent⟩ := hrow j hj hs
      have hstate : j.state = .active := by
        simp only [spent, Bool.and_eq_true, beq_iff_eq] at hspent
        exact hspent.1.1
      have hset : (t.settled now ids).setJob j.jobId (Job.settle now) =
          t.settled now (ids ++ [j.jobId]) := by
        rw [setJob_eq_settled, settled_append]
      have hless : (t.settled now (ids ++ [j.jobId])).activeCount < depth := by
        have hin : j ∈ (t.settled now ids).jobs := mem_settled.mpr ⟨j, hmem, if_neg hnot⟩
        have : ((t.settled now ids).settled now [j.jobId]).activeCount <
            (t.settled now ids).activeCount :=
          activeCount_settled_lt hin hstate (List.mem_singleton_self j.jobId)
        rw [settled_append] at this
        omega
      have hchildren : ∀ c ∈ (t.settled now (ids ++ [j.jobId])).children j.jobId,
          ∃ d ∈ t.jobs, d.jobId = c.jobId ∧ d.triggerOnJobId = some j.jobId := by
        intro c hc
        obtain ⟨hc, htrigger⟩ := List.mem_filter.mp hc
        obtain ⟨d, hd, rfl⟩ := mem_settled.mp hc
        rw [beq_iff_eq] at htrigger
        refine ⟨d, hd, ?_, ?_⟩
        · split <;> rfl
        · split at htrigger <;> exact htrigger
      obtain ⟨more, hrun, hadds, hall⟩ := ih.forM hkeys _ hchildren
        (List.mem_append_right _ (List.mem_singleton_self _)) hless
      have hself : Below t j.jobId j.jobId := .self hmem rfl hspent
      refine ⟨more, ?_, ⟨fun x hx => hadds.kept x (List.mem_append_left _ hx), fun x hx => ?_, ?_⟩,
        fun _ _ _ _ _ => hadds.kept _ (List.mem_append_right _ (List.mem_singleton_self _))⟩
      · rw [settle, if_pos hsettles, hset]
        exact hrun
      · rcases hadds.below x hx with hx | ⟨c, hc, hbelow⟩
        · rcases List.mem_append.mp hx with hx | hx
          · exact .inl hx
          · exact .inr ⟨j.jobId, List.mem_singleton_self _, List.mem_singleton.mp hx ▸ hself⟩
        · obtain ⟨row, hrow, rfl⟩ := List.mem_map.mp hc
          obtain ⟨d, hd, hid, htrigger⟩ := hchildren row hrow
          exact .inr ⟨j.jobId, List.mem_singleton_self _,
            hself.child hd htrigger (hid ▸ hbelow) hkeys⟩
      · intro p hp hpnot d hd htrigger hs
        by_cases hin : p ∈ ids ++ [j.jobId]
        · -- a child of the job itself: the loop has visited it
          obtain rfl : p = j.jobId := by simpa [hpnot] using hin
          have hchild : (if d.jobId ∈ ids ++ [j.jobId] then d.settle now else d) ∈
              (t.settled now (ids ++ [j.jobId])).children j.jobId := by
            refine List.mem_filter.mpr ⟨mem_settled.mpr ⟨d, hd, rfl⟩, ?_⟩
            rw [beq_iff_eq]
            split <;> exact htrigger
          refine hall _ hchild d hd ?_ hs
          split <;> rfl
        · exact hadds.closed p hp hin d hd htrigger hs
    · refine ⟨ids, ?_, .refl t _ ids, fun j hj hid hs hpa => ?_⟩
      · rw [settle, if_neg hsettles]
      · by_cases hin : id ∈ ids
        · exact hin
        · refine absurd ?_ hsettles
          subst hid
          rw [job?_settled hkeys hj, if_neg hin, Option.any_some]
          simp only [spent, Bool.and_eq_true] at hs
          simp only [settles, Bool.and_eq_true, settled_busy, hpa, Bool.not_false, and_true]
          exact hs

/-- A job that a cascade reaches hangs below a spent one. -/
theorem Below.root (h : Below t id x) : ∃ j ∈ t.jobs, j.jobId = id ∧ t.spent j = true := by
  induction h with
  | self hj hid hs => exact ⟨_, hj, hid, hs⟩
  | next _ _ _ _ ih => exact ih

theorem settles_iff {j : Job} : t.settles j = true ↔ t.spent j = true ∧ t.parentActive j = false := by
  simp [settles, spent]

/-- A settle check settles exactly the released jobs. -/
theorem settle_released (now : Int) (jobId : Nat) (hkeys : (t.jobs.map (·.jobId)).Nodup)
    {depth : Nat} (hdepth : t.activeCount < depth) : ∃ ids,
    t.settle now depth jobId = .ok (t.settled now ids) ∧ ∀ id, id ∈ ids ↔ t.Released jobId id := by
  by_cases hsettles : (t.job? jobId).any t.settles = true
  · obtain ⟨j, hj, hs⟩ := (Option.any_eq_true _ _).mp hsettles
    obtain ⟨hmem, hid⟩ := job?_mem hj
    obtain ⟨hspent, hparent⟩ := settles_iff.mp hs
    obtain ⟨more, hrun, hadds, hself⟩ := cascades hkeys now depth jobId []
      (by rwa [settled_nil])
    rw [settled_nil] at hrun hself
    refine ⟨more, hrun, fun id => ⟨fun hin => ⟨⟨j, hmem, hid, hparent⟩, ?_⟩, fun hrel => ?_⟩⟩
    · rcases hadds.below id hin with hnil | ⟨root, hroot, hbelow⟩
      · cases hnil
      · exact List.mem_singleton.mp hroot ▸ hbelow
    · induction hrel.2 with
      | self => exact hself j hmem hid hspent hparent
      | next hp hd htrigger hs ih =>
        exact hadds.closed _ (ih ⟨hrel.1, hp⟩) List.not_mem_nil _ hd htrigger hs
  · refine ⟨[], ?_, fun id => ⟨fun hnil => ?_, fun hrel => ?_⟩⟩
    · cases depth with
      | zero => exact absurd hdepth (Nat.not_lt_zero _)
      | succ depth => rw [settle, if_neg hsettles, settled_nil]
    · cases hnil
    · obtain ⟨⟨j, hj, hid, hparent⟩, hbelow⟩ := hrel
      obtain ⟨i, hi, hiid, hspent⟩ := hbelow.root
      obtain rfl := List.inj_on_of_nodup_map hkeys hi hj (hiid.trans hid.symm)
      refine absurd ?_ hsettles
      rw [← hid, job?_eq_some hkeys hj, Option.any_some]
      exact settles_iff.mpr ⟨hspent, hparent⟩

/-- After a settle check, one more of the same job finds nothing to settle. -/
theorem settle_again {depth jobId : Nat}
    (hids : ∀ id, id ∈ ids ↔ t.Released jobId id) (hdepth : 0 < depth) (later : Int) :
    (t.settled now ids).settle later depth jobId = .ok (t.settled now ids) := by
  cases depth with
  | zero => exact absurd hdepth (Nat.lt_irrefl _)
  | succ depth =>
    refine if_neg fun hsettles => ?_
    obtain ⟨row, hrow, hs⟩ := (Option.any_eq_true _ _).mp hsettles
    obtain ⟨hmem, hid⟩ := job?_mem hrow
    obtain ⟨j, hj, hjrow⟩ := mem_settled.mp hmem
    by_cases hin : j.jobId ∈ ids
    · rw [if_pos hin] at hjrow
      rw [← hjrow, settles_settle] at hs
      cases hs
    rw [if_neg hin] at hjrow
    subst hjrow
    subst hid
    by_cases hnone : ids = []
    · -- nothing was settled, so the job was not released
      rw [hnone, settled_nil] at hs
      obtain ⟨hspent, hparent⟩ := settles_iff.mp hs
      exact hin ((hids _).mpr ⟨⟨j, hj, rfl, hparent⟩, .self hj rfl hspent⟩)
    · obtain ⟨id, hsettled⟩ := List.exists_mem_of_ne_nil ids hnone
      obtain ⟨hfree, hbelow⟩ := (hids id).mp hsettled
      obtain ⟨i, hi, hij, hspent⟩ := hbelow.root
      exact hin ((hids _).mpr ⟨hfree, .self hi hij hspent⟩)

end Tables

end TaskScheduler
