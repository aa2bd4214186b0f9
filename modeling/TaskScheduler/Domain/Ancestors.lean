import Mathlib.Data.Finite.Prod
import Mathlib.Data.Set.Finite.Lattice
import Mathlib.Order.Bounds.Basic
import TaskScheduler.Domain.ChainValidation
import TaskScheduler.Lib.Rooted

/-! The trigger ancestors of a job, and what the recursive query of `app/domain/chain_validation.py`
says of them: the query stops on every table, and its answer tells exactly whether the chain of a
job ends at a root, and after how many jobs. -/

namespace TaskScheduler

open Lib

/-- The job that triggers a job. -/
def parentOf (jobs : List Job) (j : Job) : Option Job :=
  j.triggerOnJobId.bind fun p => jobs.find? fun i => i.jobId == p

/-! ### The rows of the query -/

/-- A row of the recursive query. -/
structure AncestorRow where
  curId : Nat
  nextId : Option Nat
  depth : Nat
  path : List Nat
  isCycle : Bool
  deriving DecidableEq, Repr

/-- The row of the query for its first job. -/
def Job.ancestorRow (j : Job) : AncestorRow := ⟨j.jobId, j.triggerOnJobId, 1, [j.jobId], false⟩

/-- The row that the recursive part joins to `a` for the job `j`. -/
def AncestorRow.join (a : AncestorRow) (j : Job) : AncestorRow :=
  ⟨j.jobId, j.triggerOnJobId, a.depth + 1, a.path ++ [j.jobId], decide (j.jobId ∈ a.path)⟩

/-- The recursive part of the query joins the job `j` to the row `a`. -/
structure AncestorRow.Joins (jobs : List Job) (limit : Nat) (a : AncestorRow) (j : Job) : Prop where
  mem : j ∈ jobs
  next : a.nextId = some j.jobId
  acyclic : a.isCycle = false
  depth : a.depth < limit

/-- The rows of the recursive query from `start`: those of its first part, and what its second part
joins to rows that it already has. -/
inductive Ancestors (jobs : List Job) (start limit : Nat) : AncestorRow → Prop
  | base {j : Job} (hj : j ∈ jobs) (hid : j.jobId = start) : Ancestors jobs start limit j.ancestorRow
  | step {a : AncestorRow} {j : Job} (ha : Ancestors jobs start limit a)
    (hj : a.Joins jobs limit j) : Ancestors jobs start limit (a.join j)

/-- The recursive query is finite on every table, whatever cycles its edges form. -/
theorem ancestors_finite (jobs : List Job) (start limit : Nat) :
    {a | Ancestors jobs start limit a}.Finite := by
  -- one level of the recursion is finite, and there are `limit` levels
  have hlevel : ∀ d, {a | Ancestors jobs start limit a ∧ a.depth = d}.Finite := by
    intro d
    induction d with
    | zero =>
      refine Set.finite_empty.subset ?_
      rintro a ⟨ha, hd⟩
      cases ha <;> cases hd
    | succ d ih =>
      have hjobs : {j | j ∈ jobs}.Finite := jobs.finite_toSet
      refine ((hjobs.image Job.ancestorRow).union
        (ih.image2 AncestorRow.join hjobs)).subset ?_
      rintro a ⟨ha, hd⟩
      cases ha with
      | base hj hid => exact .inl ⟨_, hj, rfl⟩
      | step ha hj => exact .inr ⟨_, ⟨ha, Nat.succ.inj hd⟩, _, hj.mem, rfl⟩
  have hbound : ∀ a, Ancestors jobs start limit a → a.depth ≤ limit + 1 := by
    intro a ha
    cases ha with
    | base hj hid => exact Nat.le_add_left 1 limit
    | step ha hj => exact Nat.le_succ_of_le (Nat.succ_le_of_lt hj.depth)
  refine ((Set.finite_le_nat (limit + 1)).biUnion fun d _ => hlevel d).subset fun a ha => ?_
  exact Set.mem_biUnion (hbound a ha) ⟨ha, rfl⟩

/-! ### The answer of the query -/

section Answer

variable {jobs : List Job} {start limit : Nat}

/-- The rows that the recursive part derives from a row, that row included. -/
def AncestorRow.Derives (jobs : List Job) (limit : Nat) (a b : AncestorRow) : Prop :=
  Relation.ReflTransGen (fun x y => ∃ j, x.Joins jobs limit j ∧ y = x.join j) a b

/-- A row that nothing joins derives itself alone. -/
theorem AncestorRow.Derives.eq_self {a b : AncestorRow} (h : a.Derives jobs limit b)
    (hnone : ∀ j, ¬a.Joins jobs limit j) : b = a := by
  rcases h.cases_head with rfl | ⟨c, ⟨j, hj, -⟩, -⟩
  · rfl
  · exact absurd hj (hnone j)

/-- What a row derives, it or the one row that joins it derives. -/
theorem AncestorRow.Derives.of_join {a b : AncestorRow} {p : Job} (h : a.Derives jobs limit b)
    (hone : ∀ j, a.Joins jobs limit j → j = p) : b = a ∨ (a.join p).Derives jobs limit b := by
  rcases h.cases_head with rfl | ⟨c, ⟨j, hj, rfl⟩, hrest⟩
  · exact .inl rfl
  · obtain rfl := hone j hj
    exact .inr hrest

/-- The walk reads the rows that a row derives: the largest depth, and whether one closes a cycle. -/
theorem ancestorWalk_derives (hkeys : (jobs.map (·.jobId)).Nodup) (n : Nat) (j : Job)
    (a : AncestorRow) (hnext : a.nextId = j.triggerOnJobId) (hcycle : a.isCycle = false)
    (hdepth : a.depth + n = limit) :
    IsGreatest {d | ∃ b, a.Derives jobs limit b ∧ b.depth = d}
        (ancestorWalk jobs n j a.path a.depth).1 ∧
      ((ancestorWalk jobs n j a.path a.depth).2 = true ↔
        ∃ b, a.Derives jobs limit b ∧ b.isCycle = true) := by
  -- where nothing joins the row, it is the only one
  have hlast : ∀ x : AncestorRow, (∀ i, ¬x.Joins jobs limit i) →
      IsGreatest {d | ∃ b, x.Derives jobs limit b ∧ b.depth = d} x.depth ∧
        ∀ b, x.Derives jobs limit b → b = x := by
    intro x hnone
    refine ⟨⟨⟨x, .refl, rfl⟩, ?_⟩, fun b hb => hb.eq_self hnone⟩
    rintro d ⟨b, hb, rfl⟩
    rw [hb.eq_self hnone]
  induction n generalizing j a with
  | zero =>
    obtain ⟨hmax, hself⟩ := hlast a fun i hi => by
      have := hi.depth
      omega
    refine ⟨hmax, ?_⟩
    simp only [ancestorWalk, Bool.false_eq_true, false_iff]
    rintro ⟨b, hb, hcyc⟩
    rw [hself b hb, hcycle] at hcyc
    cases hcyc
  | succ n ih =>
    cases hp : j.triggerOnJobId.bind fun p => jobs.find? fun i => i.jobId == p with
    | none =>
      obtain ⟨hmax, hself⟩ := hlast a fun i hi => by
        have hfind := hp
        rw [← hnext, hi.next, Option.bind_some, List.find?_eq_none] at hfind
        simpa using hfind i hi.mem
      simp only [ancestorWalk, hp]
      refine ⟨hmax, ?_⟩
      simp only [Bool.false_eq_true, false_iff]
      rintro ⟨b, hb, hcyc⟩
      rw [hself b hb, hcycle] at hcyc
      cases hcyc
    | some parent =>
      obtain ⟨p, htrigger, hfind⟩ := Option.bind_eq_some_iff.mp hp
      have hmem := List.mem_of_find?_eq_some hfind
      have hid : parent.jobId = p := by simpa using List.find?_some hfind
      have hjoins : a.Joins jobs limit parent :=
        ⟨hmem, hnext.trans (hid ▸ htrigger), hcycle, by omega⟩
      have hone : ∀ i, a.Joins jobs limit i → i = parent := by
        intro i hi
        have heq : some i.jobId = some parent.jobId := hi.next.symm.trans hjoins.next
        exact List.inj_on_of_nodup_map hkeys hi.mem hmem (Option.some.inj heq)
      have hstep : a.Derives jobs limit (a.join parent) := .single ⟨parent, hjoins, rfl⟩
      simp only [ancestorWalk, hp]
      by_cases hin : parent.jobId ∈ a.path
      · -- the parent closes a cycle, and its row is not extended
        have hcyc : (a.join parent).isCycle = true := by simp [AncestorRow.join, hin]
        obtain ⟨-, hself⟩ := hlast (a.join parent) fun i hi => by
          have := hi.acyclic
          rw [hcyc] at this
          cases this
        rw [if_pos hin]
        refine ⟨⟨⟨_, hstep, rfl⟩, ?_⟩, ?_⟩
        · rintro d ⟨b, hb, rfl⟩
          rcases hb.of_join hone with rfl | hb
          · exact Nat.le_succ _
          · rw [hself b hb]
            exact le_rfl
        · exact iff_of_true rfl ⟨_, hstep, hcyc⟩
      · rw [if_neg hin]
        obtain ⟨⟨⟨b, hb, hbd⟩, hupper⟩, hiff⟩ := ih parent (a.join parent) rfl
          (by simp [AncestorRow.join, hin]) (by simp only [AncestorRow.join]; omega)
        refine ⟨⟨⟨b, hstep.trans hb, hbd⟩, ?_⟩, hiff.trans ⟨?_, ?_⟩⟩
        · rintro d ⟨c, hc, rfl⟩
          rcases hc.of_join hone with rfl | hc
          · have hle : (c.join parent).depth ≤ _ := hupper ⟨_, .refl, rfl⟩
            exact (Nat.le_succ _).trans hle
          · exact hupper ⟨c, hc, rfl⟩
        · rintro ⟨c, hc, hcyc⟩
          exact ⟨c, hstep.trans hc, hcyc⟩
        · rintro ⟨c, hc, hcyc⟩
          rcases hc.of_join hone with rfl | hc
          · rw [hcycle] at hcyc
            cases hcyc
          · exact ⟨c, hc, hcyc⟩

/-- The rows of the query are those that its first row derives. -/
theorem ancestors_iff (hkeys : (jobs.map (·.jobId)).Nodup) {job : Job} (hjob : job ∈ jobs)
    (hid : job.jobId = start) {a : AncestorRow} :
    Ancestors jobs start limit a ↔ job.ancestorRow.Derives jobs limit a := by
  constructor
  · intro h
    induction h with
    | base hj hjd =>
      rw [List.inj_on_of_nodup_map hkeys hj hjob (hjd.trans hid.symm)]
      exact .refl
    | step _ hj ih => exact ih.tail ⟨_, hj, rfl⟩
  · intro h
    induction h with
    | refl => exact .base hjob hid
    | tail _ hstep ih =>
      obtain ⟨j, hj, rfl⟩ := hstep
      exact .step ih hj

/-- The answer of the query: the largest depth of its rows, and whether one of them closes a
cycle. -/
theorem ancestorsOf_spec (hkeys : (jobs.map (·.jobId)).Nodup) (hlimit : 0 < limit) :
    (∀ m, (ancestorsOf jobs start limit).1 = some m ↔
      IsGreatest {d | ∃ a, Ancestors jobs start limit a ∧ a.depth = d} m) ∧
    ((ancestorsOf jobs start limit).2 = true ↔
      ∃ a, Ancestors jobs start limit a ∧ a.isCycle = true) := by
  unfold ancestorsOf
  cases hfind : jobs.find? fun j => j.jobId == start with
  | none =>
    have hnone : ∀ a, ¬Ancestors jobs start limit a := by
      intro a ha
      induction ha with
      | base hj hid => simpa [hid] using List.find?_eq_none.mp hfind _ hj
      | step _ _ ih => exact ih
    refine ⟨fun m => iff_of_false (by simp) ?_, iff_of_false (by simp) ?_⟩
    · rintro ⟨⟨a, ha, -⟩, -⟩
      exact hnone a ha
    · rintro ⟨a, ha, -⟩
      exact hnone a ha
  | some job =>
    have hjob := List.mem_of_find?_eq_some hfind
    have hid : job.jobId = start := by simpa using List.find?_some hfind
    obtain ⟨hmax, hcycle⟩ := ancestorWalk_derives hkeys (limit - 1) job job.ancestorRow rfl rfl
      (show 1 + (limit - 1) = limit by omega)
    simp only [ancestors_iff hkeys hjob hid]
    refine ⟨fun m => ?_, hcycle⟩
    rw [Option.some.injEq]
    exact ⟨fun h => h ▸ hmax, fun h => hmax.unique h⟩

end Answer

/-! ### What the answer decides -/

section Decides

variable {jobs : List Job}

theorem parentOf_found {j p : Job} (h : parentOf jobs j = some p) :
    jobs.find? (fun i => i.jobId == p.jobId) = some p := by
  obtain ⟨id, -, hfind⟩ := Option.bind_eq_some_iff.mp h
  have hid : p.jobId = id := by simpa using List.find?_some hfind
  rwa [hid]

/-- A walk that neither closes a cycle nor runs out has come to a root. -/
theorem rooted_of_ancestorWalk (n : Nat) (j : Job) (path : List Nat) (depth : Nat)
    (hcycle : (ancestorWalk jobs n j path depth).2 = false)
    (hend : (ancestorWalk jobs n j path depth).1 < depth + n) :
    ∃ k, (ancestorWalk jobs n j path depth).1 + 1 = depth + k ∧ Rooted (parentOf jobs) k j := by
  induction n generalizing j path depth with
  | zero =>
    simp only [ancestorWalk] at hend
    omega
  | succ n ih =>
    cases hp : parentOf jobs j with
    | none =>
      refine ⟨1, ?_, .root hp⟩
      unfold parentOf at hp
      simp only [ancestorWalk, hp]
    | some parent =>
      have hwalk := hp
      unfold parentOf at hwalk
      simp only [ancestorWalk, hwalk] at hcycle hend ⊢
      split at hcycle
      · cases hcycle
      · next hnot =>
        rw [if_neg hnot] at hend ⊢
        obtain ⟨k, hk, hrooted⟩ := ih parent _ (depth + 1) hcycle (by omega)
        exact ⟨k + 1, by omega, .step hp hrooted⟩

/-- The walk from a rooted job comes to the root: no job on its way is on the path behind it. -/
theorem ancestorWalk_of_rooted {k : Nat} (n : Nat) (j : Job) (path : List Nat) (depth : Nat)
    (h : Rooted (parentOf jobs) k j) (hk : k ≤ n + 1)
    (hpath : ∀ id ∈ path, ∃ i, jobs.find? (fun x => x.jobId == id) = some i ∧
      Relation.ReflTransGen (Up (parentOf jobs)) i j) :
    (ancestorWalk jobs n j path depth).1 + 1 = depth + k ∧
      (ancestorWalk jobs n j path depth).2 = false := by
  induction n generalizing j path depth k with
  | zero =>
    have := h.pos
    exact ⟨show depth + 1 = depth + k by omega, rfl⟩
  | succ n ih =>
    cases h with
    | root hp =>
      unfold parentOf at hp
      simp [ancestorWalk, hp]
    | @step _ parent k hp hrooted =>
      have hnot : parent.jobId ∉ path := by
        intro hin
        obtain ⟨i, hi, hreach⟩ := hpath _ hin
        obtain rfl : parent = i := Option.some.inj ((parentOf_found hp).symm.trans hi)
        exact hrooted.acyclic (.tail' hreach hp)
      have hwalk := hp
      unfold parentOf at hwalk
      have hpath' : ∀ id ∈ path ++ [parent.jobId], ∃ i,
          jobs.find? (fun x => x.jobId == id) = some i ∧
            Relation.ReflTransGen (Up (parentOf jobs)) i parent := by
        intro id hid
        rcases List.mem_append.mp hid with hid | hid
        · obtain ⟨i, hi, hreach⟩ := hpath id hid
          exact ⟨i, hi, hreach.tail hp⟩
        · rw [List.mem_singleton.mp hid]
          exact ⟨parent, parentOf_found hp, .refl⟩
      obtain ⟨hdepth, hcycle⟩ := ih parent _ (depth + 1) hrooted (by omega) hpath'
      simp only [ancestorWalk, hwalk, if_neg hnot]
      exact ⟨by omega, hcycle⟩

/-- The check of `validate_chain` on the answer of the query: it passes exactly where the chain of
the job ends at a root and leaves room for one more job. -/
theorem ancestorsOf_passes {id : Nat} {j : Job} (hj : jobs.find? (fun i => i.jobId == id) = some j) :
    ((ancestorsOf jobs id (maxChainDepth + 2)).2 = false ∧
      (ancestorsOf jobs id (maxChainDepth + 2)).1.getD 0 < maxChainDepth) ↔
      ∃ n < maxChainDepth, Rooted (parentOf jobs) n j := by
  have hid : j.jobId = id := by simpa using List.find?_some hj
  simp only [ancestorsOf, hj, Option.getD_some]
  constructor
  · rintro ⟨hcycle, hdepth⟩
    obtain ⟨k, hk, hrooted⟩ := rooted_of_ancestorWalk _ j _ 1 hcycle
      (show _ < 1 + (maxChainDepth + 2 - 1) by omega)
    exact ⟨k, by omega, hrooted⟩
  · rintro ⟨n, hn, hrooted⟩
    obtain ⟨hdepth, hcycle⟩ := ancestorWalk_of_rooted (maxChainDepth + 2 - 1) j [j.jobId] 1 hrooted
      (by omega) (by
        intro x hx
        rw [List.mem_singleton.mp hx, hid]
        exact ⟨j, hj, .refl⟩)
    exact ⟨hcycle, by omega⟩

end Decides

/-! ### Chains of a table -/

/-- The chain of a job of the table has `n` jobs, the job included, and ends at a root. -/
inductive Chained (jobs : List Job) : Nat → Nat → Prop
  | root {j : Job} (hj : j ∈ jobs) (h : j.triggerOnJobId = none) : Chained jobs 1 j.jobId
  | link {j : Job} {n p : Nat} (hj : j ∈ jobs) (h : j.triggerOnJobId = some p)
    (hp : Chained jobs n p) : Chained jobs (n + 1) j.jobId

theorem Chained.mem {jobs : List Job} {n id : Nat} (h : Chained jobs n id) :
    ∃ j ∈ jobs, j.jobId = id := by
  cases h with
  | root hj _ | link hj _ _ => exact ⟨_, hj, rfl⟩

theorem Chained.pos {jobs : List Job} {n id : Nat} (h : Chained jobs n id) : 0 < n := by
  cases h with
  | root _ _ => exact Nat.one_pos
  | link _ _ _ => exact Nat.succ_pos _

/-- A chain stays when its jobs stay with their triggers. -/
theorem Chained.mono {jobs jobs' : List Job} {n id : Nat} (h : Chained jobs n id)
    (hjobs : ∀ j ∈ jobs, ∃ j' ∈ jobs', j'.jobId = j.jobId ∧ j'.triggerOnJobId = j.triggerOnJobId) :
    Chained jobs' n id := by
  induction h with
  | root hj hroot =>
    obtain ⟨j', hj', hid, htrigger⟩ := hjobs _ hj
    exact hid ▸ .root hj' (htrigger.trans hroot)
  | link hj hlink _ ih =>
    obtain ⟨j', hj', hid, htrigger⟩ := hjobs _ hj
    exact hid ▸ .link hj' (htrigger.trans hlink) ih

/-- Where every trigger is a job of the table, a rooted job is chained. -/
theorem Chained.of_rooted {jobs : List Job} {n : Nat} {j : Job}
    (hkey : ∀ j ∈ jobs, ∀ p, j.triggerOnJobId = some p → ∃ i ∈ jobs, i.jobId = p) (hj : j ∈ jobs)
    (h : Rooted (parentOf jobs) n j) : Chained jobs n j.jobId := by
  induction h with
  | @root j hroot =>
    cases htrigger : j.triggerOnJobId with
    | none => exact .root hj htrigger
    | some p =>
      obtain ⟨i, hi, hid⟩ := hkey j hj p htrigger
      rw [parentOf, htrigger, Option.bind_some, List.find?_eq_none] at hroot
      exact absurd hid (by simpa using hroot i hi)
  | @step j parent n hup _ ih =>
    obtain ⟨p, htrigger, hfind⟩ := Option.bind_eq_some_iff.mp hup
    have hid : parent.jobId = p := by simpa using List.find?_some hfind
    exact .link hj htrigger (hid ▸ ih (List.mem_of_find?_eq_some hfind))

/-- Where the keys are unique, a chained job is rooted. -/
theorem Chained.rooted {jobs : List Job} {n id : Nat} (h : Chained jobs n id)
    (hkeys : (jobs.map (·.jobId)).Nodup) {j : Job} (hj : j ∈ jobs) (hid : j.jobId = id) :
    Rooted (parentOf jobs) n j := by
  induction h generalizing j with
  | root hi hroot =>
    rw [List.inj_on_of_nodup_map hkeys hj hi hid]
    exact .root (by rw [parentOf, hroot]; rfl)
  | @link i n p hi hlink hp ih =>
    rw [List.inj_on_of_nodup_map hkeys hj hi hid]
    obtain ⟨parent, hparent, hpid⟩ := hp.mem
    have hfind : jobs.find? (fun x => x.jobId == p) = some parent := by
      have hsome : (jobs.find? fun x => x.jobId == p).isSome = true :=
        List.find?_isSome.mpr ⟨parent, hparent, by simpa using hpid⟩
      obtain ⟨x, hx⟩ := Option.isSome_iff_exists.mp hsome
      have hxid : x.jobId = p := by simpa using List.find?_some hx
      rw [hx, List.inj_on_of_nodup_map hkeys (List.mem_of_find?_eq_some hx) hparent
        (hxid.trans hpid.symm)]
    exact .step (by rw [parentOf, hlink]; exact hfind) (ih hparent hpid)

end TaskScheduler
