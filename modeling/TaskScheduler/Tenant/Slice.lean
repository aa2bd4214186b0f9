import TaskScheduler.Db.Alone
import TaskScheduler.Domain.Views
import TaskScheduler.Lib.InStep
import TaskScheduler.Tenant.Owned

/-! A transaction that keeps to the rows of one user, in two databases at once.  Where the databases
agree on the rows of the user, its statements get the same answers, and it changes no row of another
user.  The statements carry no filter on the user: that their rows are the user's follows from the
owners of the rows. -/

namespace TaskScheduler

open Lib

/-! ### The rows of a user -/

namespace Tables

/-- The event is of a job of the user. -/
def mine (t : Tables) (u : String) (e : RunEvent) : Bool :=
  t.jobs.any fun j => j.jobId == e.jobId && j.userId == u

/-- The rows of a user. -/
def of (t : Tables) (u : String) : Tables where
  jobs := t.jobs.filter fun j => j.userId == u
  runs := t.runs.filter fun r => r.userId == u
  events := t.events.filter (t.mine u)

/-- The rows of the other users. -/
def others (t : Tables) (u : String) : Tables where
  jobs := t.jobs.filter fun j => !(j.userId == u)
  runs := t.runs.filter fun r => !(r.userId == u)
  events := t.events.filter fun e => !t.mine u e

/-- The id is of no job of another user. -/
def Mine (t : Tables) (u : String) (id : Nat) : Prop :=
  ∀ j ∈ t.jobs, j.jobId = id → j.userId = u

/-- Tables whose rows have their keys and their owners. -/
structure Whole (t : Tables) : Prop where
  owned : t.Owned
  jobs : (t.jobs.map (·.jobId)).Nodup
  runs : (t.runs.map (·.runId)).Nodup

namespace Whole

variable {t : Tables} {u : String} {id : Nat}

theorem mine_self (h : t.Whole) {j : Job} (hj : j ∈ t.jobs) (hu : j.userId = u) :
    t.Mine u j.jobId := by
  intro i hi hid
  rw [List.inj_on_of_nodup_map h.jobs hi hj hid]
  exact hu

theorem mine_run (h : t.Whole) (hm : t.Mine u id) {r : JobRun} (hr : r ∈ t.runs)
    (hid : r.jobId = id) : r.userId = u := by
  obtain ⟨j, hj, hjr, hju⟩ := h.owned.run r hr
  exact hju.symm.trans (hm j hj (hjr.trans hid))

theorem mine_parent (h : t.Whole) {j : Job} (hj : j ∈ t.jobs) (hu : j.userId = u)
    (hp : j.triggerOnJobId = some id) : t.Mine u id := by
  obtain ⟨i, hi, rfl, hiu⟩ := h.owned.trigger j hj id hp
  exact h.mine_self hi (hiu.trans hu)

theorem mine_child (h : t.Whole) (hm : t.Mine u id) {j : Job} (hj : j ∈ t.jobs)
    (hp : j.triggerOnJobId = some id) : j.userId = u := by
  obtain ⟨i, hi, hid, hiu⟩ := h.owned.trigger j hj id hp
  exact hiu.symm.trans (hm i hi hid)

end Whole

end Tables

/-- The columns that say whose row it is and what it hangs on; no update touches them. -/
def Job.ties (j : Job) : Nat × String × Option Nat := (j.jobId, j.userId, j.triggerOnJobId)

def JobRun.ties (r : JobRun) : Nat × Nat × String := (r.runId, r.jobId, r.userId)

/-- The table has a job with these columns. -/
def Tables.Ties (t : Tables) (j : Job) : Prop := ∃ i ∈ t.jobs, i.ties = j.ties

def Tables.RunTies (t : Tables) (r : JobRun) : Prop := ∃ x ∈ t.runs, x.ties = r.ties

/-- The predicate matches only jobs of the user. -/
def Tables.Confines (t : Tables) (u : String) (p : Job → Bool) : Prop :=
  ∀ j, t.Ties j → p j = true → j.userId = u

/-- The predicate matches only runs of the user. -/
def Tables.ConfinesRuns (t : Tables) (u : String) (p : JobRun → Bool) : Prop :=
  ∀ r, t.RunTies r → p r = true → r.userId = u

namespace Tables.Whole

variable {t : Tables} {u : String} {id : Nat}

theorem confines_id (hm : t.Mine u id) {p : Job → Bool} (hp : ∀ j, p j = true → j.jobId = id) :
    t.Confines u p := by
  rintro j ⟨i, hi, htie⟩ hpj
  simp only [Job.ties, Prod.mk.injEq] at htie
  exact htie.2.1.symm.trans (hm i hi (htie.1.trans (hp j hpj)))

theorem confines_child (h : t.Whole) (hm : t.Mine u id) :
    t.Confines u fun j => j.triggerOnJobId == some id := by
  rintro j ⟨i, hi, htie⟩ hpj
  simp only [Job.ties, Prod.mk.injEq] at htie
  rw [beq_iff_eq] at hpj
  exact htie.2.1.symm.trans (h.mine_child hm hi (htie.2.2.trans hpj))

/-- The runs of one of the user's jobs. -/
theorem confines_runs (h : t.Whole) (hm : t.Mine u id) {p : JobRun → Bool}
    (hp : ∀ r, p r = true → r.jobId = id) : t.ConfinesRuns u p := by
  rintro r ⟨x, hx, htie⟩ hpr
  simp only [JobRun.ties, Prod.mk.injEq] at htie
  exact htie.2.2.symm.trans (h.mine_run hm hx (htie.2.1.trans (hp r hpr)))

/-- One of the user's runs. -/
theorem confines_run (h : t.Whole) {r : JobRun} (hr : t.RunTies r) (hu : r.userId = u) :
    t.ConfinesRuns u fun x => x.runId == r.runId := by
  rintro y ⟨x, hx, htie⟩ hpy
  obtain ⟨z, hz, hzr⟩ := hr
  rw [beq_iff_eq] at hpy
  have hxz : x = z := List.inj_on_of_nodup_map h.runs hx hz
    ((congrArg (·.1) htie).trans (hpy.trans (congrArg (·.1) hzr).symm))
  have hyr : y.ties = r.ties := by rw [← htie, hxz, hzr]
  exact (congrArg (·.2.2) hyr).trans hu

end Tables.Whole

/-! ### Lists of rows -/

section Rows

variable {α : Type}

/-- What a predicate matches, it matches among the rows of another that it implies. -/
theorem filter_within {l : List α} {p q : α → Bool} (h : ∀ a ∈ l, p a = true → q a = true) :
    l.filter p = (l.filter q).filter p := by
  rw [List.filter_filter]
  refine List.filter_congr fun a ha => ?_
  cases hp : p a
  · rfl
  · rw [h a ha hp]
    rfl

theorem filter_update (l : List α) {q : α → Bool} {f : α → α} (h : ∀ a, q (f a) = q a) :
    (l.map f).filter q = (l.filter q).map f := by
  rw [List.filter_map]
  congr 2
  funext a
  exact h a

theorem update_rest {l : List α} {q : α → Bool} {f : α → α}
    (h : ∀ a ∈ l, q a = true → f a = a) : (l.filter q).map f = l.filter q := by
  refine (List.map_congr_left fun a ha => ?_).trans (List.map_id _)
  exact h a (List.mem_filter.mp ha).1 (List.mem_filter.mp ha).2

end Rows

/-- The rows that an update writes keep their columns. -/
theorem Job.ties_update {set : Job → Job} (hset : ∀ j, (set j).ties = j.ties) (ids : List Nat)
    (j : Job) : (if j.jobId ∈ ids then set j else j).ties = j.ties := by
  split
  · exact hset j
  · rfl

theorem JobRun.ties_update {set : JobRun → JobRun} (hset : ∀ r, (set r).ties = r.ties)
    (ids : List Nat) (r : JobRun) : (if r.runId ∈ ids then set r else r).ties = r.ties := by
  split
  · exact hset r
  · rfl

theorem Job.userId_of_ties {a b : Job} (h : a.ties = b.ties) : a.userId = b.userId :=
  congrArg (·.2.1) h

theorem JobRun.userId_of_ties {a b : JobRun} (h : a.ties = b.ties) : a.userId = b.userId :=
  congrArg (·.2.2) h

/-! ### Two databases -/

/-- What a session of the user has done to the view of its database: columns and rows stay, but for
its own rows and new events of its own jobs. -/
structure Side (u : String) (t v : Tables) : Prop where
  jobs : v.jobs.map Job.ties = t.jobs.map Job.ties
  runs : v.runs.map JobRun.ties = t.runs.map JobRun.ties
  foreign_jobs : (v.jobs.filter fun j => !(j.userId == u)) = t.jobs.filter fun j => !(j.userId == u)
  foreign_runs : (v.runs.filter fun r => !(r.userId == u)) = t.runs.filter fun r => !(r.userId == u)
  events : ∃ new, v.events = t.events ++ new ∧
    ∀ e ∈ new, ∃ j ∈ t.jobs, j.jobId = e.jobId ∧ j.userId = u

namespace Side

variable {u : String} {t v : Tables}

theorem refl (t : Tables) : Side u t t := ⟨rfl, rfl, rfl, rfl, [], by simp⟩

theorem ties (h : Side u t v) {j : Job} (hj : j ∈ v.jobs) : t.Ties j := by
  have hmem := List.mem_map_of_mem hj (f := Job.ties)
  rw [h.jobs] at hmem
  exact List.mem_map.mp hmem

theorem run_ties (h : Side u t v) {r : JobRun} (hr : r ∈ v.runs) : t.RunTies r := by
  have hmem := List.mem_map_of_mem hr (f := JobRun.ties)
  rw [h.runs] at hmem
  exact List.mem_map.mp hmem

theorem jobs_nodup (h : Side u t v) (ht : t.Whole) : (v.jobs.map (·.jobId)).Nodup := by
  have hmap := congrArg (List.map Prod.fst) h.jobs
  simp only [List.map_map] at hmap
  exact hmap ▸ ht.jobs

theorem runs_nodup (h : Side u t v) (ht : t.Whole) : (v.runs.map (·.runId)).Nodup := by
  have hmap := congrArg (List.map Prod.fst) h.runs
  simp only [List.map_map] at hmap
  exact hmap ▸ ht.runs

theorem updateJobs (h : Side u t v) (ht : t.Whole) {p : Job → Bool} {set : Job → Job}
    (hp : t.Confines u p) (hset : ∀ j, (set j).ties = j.ties) :
    Side u t ((Write.updateJobs ((v.jobs.filter p).map (·.jobId)) set).apply v) := by
  refine { h with jobs := ?_, foreign_jobs := ?_ }
  · simp only [Write.apply, List.map_map]
    rw [← h.jobs]
    exact List.map_congr_left fun j _ => Job.ties_update hset _ j
  · simp only [Write.apply]
    rw [filter_update]
    · rw [← h.foreign_jobs]
      -- an id that the update matches is of one row only, and that is the user's
      refine update_rest fun j hj hu => if_neg fun hin => ?_
      obtain ⟨i, hi, hid⟩ := List.mem_map.mp hin
      obtain ⟨hi, hpi⟩ := List.mem_filter.mp hi
      rw [← List.inj_on_of_nodup_map (h.jobs_nodup ht) hi hj hid, hp i (h.ties hi) hpi] at hu
      simp at hu
    · exact fun j => by rw [Job.userId_of_ties (Job.ties_update hset _ j)]

theorem updateRuns (h : Side u t v) (ht : t.Whole) {p : JobRun → Bool} {set : JobRun → JobRun}
    (hp : t.ConfinesRuns u p) (hset : ∀ r, (set r).ties = r.ties) :
    Side u t ((Write.updateRuns ((v.runs.filter p).map (·.runId)) set).apply v) := by
  refine { h with runs := ?_, foreign_runs := ?_ }
  · simp only [Write.apply, List.map_map]
    rw [← h.runs]
    exact List.map_congr_left fun r _ => JobRun.ties_update hset _ r
  · simp only [Write.apply]
    rw [filter_update]
    · rw [← h.foreign_runs]
      refine update_rest fun r hr hu => if_neg fun hin => ?_
      obtain ⟨x, hx, hid⟩ := List.mem_map.mp hin
      obtain ⟨hx, hpx⟩ := List.mem_filter.mp hx
      rw [← List.inj_on_of_nodup_map (h.runs_nodup ht) hx hr hid, hp x (h.run_ties hx) hpx] at hu
      simp at hu
    · exact fun r => by rw [JobRun.userId_of_ties (JobRun.ties_update hset _ r)]

theorem insertEvent (h : Side u t v) {row : RunEvent}
    (hrow : ∃ j ∈ t.jobs, j.jobId = row.jobId ∧ j.userId = u) :
    Side u t ((Write.insertEvent row).apply v) := by
  obtain ⟨new, hnew, hall⟩ := h.events
  refine { h with events := ⟨new ++ [row], ?_, fun e he => ?_⟩ }
  · simp only [Write.apply, hnew, List.append_assoc]
  · rcases List.mem_append.mp he with he | he
    · exact hall e he
    · exact List.mem_singleton.mp he ▸ hrow

/-- The rows of the other users are as they were. -/
theorem others (h : Side u t v) : v.others u = t.others u := by
  have hmine : v.mine u = t.mine u := by
    funext e
    have := congrArg (List.any · fun k => k.1 == e.jobId && k.2.1 == u) h.jobs
    simp only [List.any_map, Function.comp_def, Job.ties] at this
    exact this
  obtain ⟨new, hnew, hall⟩ := h.events
  have hnil : (new.filter fun e => !t.mine u e) = [] := by
    rw [List.filter_eq_nil_iff]
    intro e he
    obtain ⟨j, hj, hid, hu⟩ := hall e he
    simp only [Bool.not_eq_true', Bool.not_eq_false, Tables.mine, List.any_eq_true]
    exact ⟨j, hj, by simp [hid, hu]⟩
  simp only [Tables.others, h.foreign_jobs, h.foreign_runs, hmine, hnew, List.filter_append, hnil,
    List.append_nil]

end Side

/-- Two sessions of the user that have gone the same way: each has kept to the user's rows, and the
user's rows and the loaded entities are the same. -/
structure Alike (u : String) (t t' : Tables) (d d' : Seq × Session) : Prop where
  left : Side u t (d.2.view t)
  right : Side u t' (d'.2.view t')
  jobs : ((d.2.view t).jobs.filter fun j => j.userId == u) =
    (d'.2.view t').jobs.filter fun j => j.userId == u
  runs : ((d.2.view t).runs.filter fun r => r.userId == u) =
    (d'.2.view t').runs.filter fun r => r.userId == u
  loaded : d.2.loaded = d'.2.loaded
  entities : ∀ c ∈ d.2.loaded, c.userId = u ∧ t.Ties c ∧ t'.Ties c

/-- The two databases. -/
structure Twins (u : String) (t t' : Tables) : Prop where
  left : t.Whole
  right : t'.Whole
  agree : t.of u = t'.of u

/-- The transaction goes the same way in the two databases, up to `Q`. -/
abbrev Twin (pick pick' : Nat → Bool) (u : String) (t t' : Tables) {α : Type}
    (Q : α → Seq × Session → Seq × Session → Prop) (prog : Txn α) :
    Seq × Session → Seq × Session → Prop :=
  prog.InStep (Stmt.exec pick [] t) (Stmt.exec pick' [] t') (fun _ => Alike u t t') Q

theorem Session.view_write (ses : Session) (w : Write) (t : Tables) :
    (ses.write w).view t = w.apply (ses.view t) := by
  simp [Session.view, Session.write]

namespace Alike

variable {u : String} {t t' : Tables} {d d' : Seq × Session} {pick pick' : Nat → Bool}

theorem init (h : Twins u t t') (seq seq' : Seq) (start start' : Int) :
    Alike u t t' (seq, { start }) (seq', { start := start' }) :=
  ⟨.refl t, .refl t', congrArg Tables.jobs h.agree, congrArg Tables.runs h.agree, rfl, by simp⟩

/-- The rows that a confined select of jobs answers. -/
theorem matched (h : Alike u t t' d d') {p : Job → Bool} (hp : t.Confines u p)
    (hp' : t'.Confines u p) :
    (d.2.view t).jobs.filter p = (d'.2.view t').jobs.filter p ∧
      ∀ j ∈ (d.2.view t).jobs.filter p, p j = true ∧ j.userId = u ∧ t.Ties j ∧ t'.Ties j := by
  have heq : (d.2.view t).jobs.filter p = (d'.2.view t').jobs.filter p := by
    rw [filter_within (q := fun j => j.userId == u) fun j hj hpj => by
        simpa using hp j (h.left.ties hj) hpj,
      filter_within (l := (d'.2.view t').jobs) (q := fun j => j.userId == u) fun j hj hpj => by
        simpa using hp' j (h.right.ties hj) hpj, h.jobs]
  refine ⟨heq, fun j hj => ?_⟩
  have hleft := List.mem_filter.mp hj
  have hright := List.mem_filter.mp (heq ▸ hj)
  have hties := h.left.ties hleft.1
  exact ⟨hleft.2, hp j hties hleft.2, hties, h.right.ties hright.1⟩

theorem matched_runs (h : Alike u t t' d d') {p : JobRun → Bool} (hp : t.ConfinesRuns u p)
    (hp' : t'.ConfinesRuns u p) :
    (d.2.view t).runs.filter p = (d'.2.view t').runs.filter p ∧
      ∀ r ∈ (d.2.view t).runs.filter p, p r = true ∧ r.userId = u ∧ t.RunTies r ∧ t'.RunTies r := by
  have heq : (d.2.view t).runs.filter p = (d'.2.view t').runs.filter p := by
    rw [filter_within (q := fun r => r.userId == u) fun r hr hpr => by
        simpa using hp r (h.left.run_ties hr) hpr,
      filter_within (l := (d'.2.view t').runs) (q := fun r => r.userId == u) fun r hr hpr => by
        simpa using hp' r (h.right.run_ties hr) hpr, h.runs]
  refine ⟨heq, fun r hr => ?_⟩
  have hleft := List.mem_filter.mp hr
  have hright := List.mem_filter.mp (heq ▸ hr)
  have hties := h.left.run_ties hleft.1
  exact ⟨hleft.2, hp r hties hleft.2, hties, h.right.run_ties hright.1⟩

theorem selectJobs (h : Alike u t t' d d') {p : Job → Bool} (hp : t.Confines u p)
    (hp' : t'.Confines u p) :
    Twin pick pick' u t t' (fun rows d₁ d₁' => Alike u t t' d₁ d₁' ∧
      ∀ j ∈ rows, p j = true ∧ j.userId = u ∧ t.Ties j ∧ t'.Ties j) (Txn.selectJobs p) d d' := by
  rintro r ⟨seq, ses⟩ r' ⟨seq', ses'⟩ hr hr'
  obtain ⟨heq, hall⟩ := h.matched hp hp'
  simp only [Stmt.exec, Option.some.injEq] at hr hr'
  obtain ⟨rfl, rfl, rfl⟩ := hr
  obtain ⟨rfl, rfl, rfl⟩ := hr'
  exact ⟨congrArg Program.ret heq, h, hall⟩

theorem selectRuns (h : Alike u t t' d d') {p : JobRun → Bool} (hp : t.ConfinesRuns u p)
    (hp' : t'.ConfinesRuns u p) :
    Twin pick pick' u t t' (fun rows d₁ d₁' => Alike u t t' d₁ d₁' ∧
      ∀ r ∈ rows, p r = true ∧ r.userId = u ∧ t.RunTies r ∧ t'.RunTies r) (Txn.selectRuns p) d d' := by
  rintro r ⟨seq, ses⟩ r' ⟨seq', ses'⟩ hr hr'
  obtain ⟨heq, hall⟩ := h.matched_runs hp hp'
  simp only [Stmt.exec, Option.some.injEq] at hr hr'
  obtain ⟨rfl, rfl, rfl⟩ := hr
  obtain ⟨rfl, rfl, rfl⟩ := hr'
  exact ⟨congrArg Program.ret heq, h, hall⟩

theorem loadJobs (h : Alike u t t' d d') (hw : Twins u t t') {p : Job → Bool}
    (hp : t.Confines u p) (hp' : t'.Confines u p)
    (hties : ∀ c j : Job, c.ties = j.ties → p j = true → p c = true) :
    Twin pick pick' u t t' (fun cs d₁ d₁' => Alike u t t' d₁ d₁' ∧
      ∀ c ∈ cs, p c = true ∧ c.userId = u ∧ t.Ties c ∧ t'.Ties c) (Txn.loadJobs p) d d' := by
  rintro r ⟨seq, ses⟩ r' ⟨seq', ses'⟩ hr hr'
  obtain ⟨heq, hall⟩ := h.matched hp hp'
  have hentity : d.2.entity = d'.2.entity := by
    funext row
    rw [Session.entity, Session.entity, h.loaded]
  have hisLoaded : d.2.isLoaded = d'.2.isLoaded := by
    funext row
    rw [Session.isLoaded, Session.isLoaded, h.loaded]
  simp only [Stmt.exec, Option.some.injEq] at hr hr'
  obtain ⟨rfl, rfl, rfl⟩ := hr
  obtain ⟨rfl, rfl, rfl⟩ := hr'
  refine ⟨?_, ⟨h.left, h.right, h.jobs, h.runs, ?_, fun c hc => ?_⟩, fun c hc => ?_⟩
  · exact congrArg Program.ret (by rw [heq, hentity])
  · change d.2.loaded ++ _ = d'.2.loaded ++ _
    rw [h.loaded, heq, hisLoaded]
  · rcases List.mem_append.mp hc with hc | hc
    · exact h.entities c hc
    · exact (hall c (List.mem_filter.mp hc).1).2
  · obtain ⟨j, hj, rfl⟩ := List.mem_map.mp hc
    obtain ⟨hpj, hu, ⟨i, hi, hij⟩, hj'⟩ := hall j hj
    unfold Session.entity
    cases hfind : d.2.loaded.find? fun c => c.jobId == j.jobId with
    | none => exact ⟨hpj, hu, ⟨i, hi, hij⟩, hj'⟩
    | some c =>
      -- the loaded entity is an earlier version of the row
      obtain ⟨hcu, ⟨l, hl, hlc⟩, hct⟩ := h.entities c (List.mem_of_find?_eq_some hfind)
      have hid : c.jobId = j.jobId := by simpa using List.find?_some hfind
      have hli : l = i := by
        refine List.inj_on_of_nodup_map hw.left.jobs hl hi ?_
        exact (congrArg (·.1) hlc).trans (hid.trans (congrArg (·.1) hij).symm)
      have hcj : c.ties = j.ties := by rw [← hlc, hli, hij]
      exact ⟨hties c j hcj hpj, hcu, ⟨l, hl, hlc⟩, hct⟩

theorem advisoryLock (h : Alike u t t' d d') (key : Nat) :
    Twin pick pick' u t t' (fun _ => Alike u t t') (Txn.advisoryLock key) d d' := by
  rintro r ⟨seq, ses⟩ r' ⟨seq', ses'⟩ hr hr'
  simp only [Stmt.exec, List.any_nil, Bool.false_eq_true, if_false, Option.some.injEq] at hr hr'
  obtain ⟨-, rfl, rfl⟩ := hr
  obtain ⟨-, rfl, rfl⟩ := hr'
  exact ⟨rfl, h.left, h.right, h.jobs, h.runs, h.loaded, h.entities⟩

theorem updateJobs (h : Alike u t t' d d') (hw : Twins u t t') {p : Job → Bool} {set : Job → Job}
    (hp : t.Confines u p) (hp' : t'.Confines u p) (hset : ∀ j, (set j).ties = j.ties) :
    Twin pick pick' u t t' (fun _ => Alike u t t') (Txn.updateJobs p set) d d' := by
  rintro r ⟨seq, ses⟩ r' ⟨seq', ses'⟩ hr hr'
  obtain ⟨heq, -⟩ := h.matched hp hp'
  simp only [Stmt.exec, List.any_nil, Bool.false_eq_true, if_false, Option.some.injEq] at hr hr'
  obtain ⟨rfl, rfl, rfl⟩ := hr
  obtain ⟨rfl, rfl, rfl⟩ := hr'
  have hview := d.2.view_write (.updateJobs (((d.2.view t).jobs.filter p).map (·.jobId)) set) t
  have hview' := d'.2.view_write (.updateJobs (((d'.2.view t').jobs.filter p).map (·.jobId)) set) t'
  have huser : ∀ (ids : List Nat) (j : Job),
      ((if j.jobId ∈ ids then set j else j).userId == u) = (j.userId == u) :=
    fun ids j => by rw [Job.userId_of_ties (Job.ties_update hset ids j)]
  refine ⟨by rw [heq], ?_, ?_, ?_, ?_, h.loaded, h.entities⟩
  · exact hview ▸ h.left.updateJobs hw.left hp hset
  · exact hview' ▸ h.right.updateJobs hw.right hp' hset
  · change ((d.2.write _).view t).jobs.filter _ = ((d'.2.write _).view t').jobs.filter _
    rw [hview, hview', ← heq]
    simp only [Write.apply]
    rw [filter_update _ (huser _), filter_update _ (huser _), h.jobs]
  · change ((d.2.write _).view t).runs.filter _ = ((d'.2.write _).view t').runs.filter _
    rw [hview, hview']
    exact h.runs

theorem updateRuns (h : Alike u t t' d d') (hw : Twins u t t') {p : JobRun → Bool}
    {set : JobRun → JobRun} (hp : t.ConfinesRuns u p) (hp' : t'.ConfinesRuns u p)
    (hset : ∀ r, (set r).ties = r.ties) :
    Twin pick pick' u t t' (fun _ => Alike u t t') (Txn.updateRuns p set) d d' := by
  rintro r ⟨seq, ses⟩ r' ⟨seq', ses'⟩ hr hr'
  obtain ⟨heq, -⟩ := h.matched_runs hp hp'
  simp only [Stmt.exec, List.any_nil, Bool.false_eq_true, if_false, Option.some.injEq] at hr hr'
  obtain ⟨rfl, rfl, rfl⟩ := hr
  obtain ⟨rfl, rfl, rfl⟩ := hr'
  have hview := d.2.view_write (.updateRuns (((d.2.view t).runs.filter p).map (·.runId)) set) t
  have hview' := d'.2.view_write (.updateRuns (((d'.2.view t').runs.filter p).map (·.runId)) set) t'
  have huser : ∀ (ids : List Nat) (r : JobRun),
      ((if r.runId ∈ ids then set r else r).userId == u) = (r.userId == u) :=
    fun ids r => by rw [JobRun.userId_of_ties (JobRun.ties_update hset ids r)]
  refine ⟨by rw [heq], ?_, ?_, ?_, ?_, h.loaded, h.entities⟩
  · exact hview ▸ h.left.updateRuns hw.left hp hset
  · exact hview' ▸ h.right.updateRuns hw.right hp' hset
  · change ((d.2.write _).view t).jobs.filter _ = ((d'.2.write _).view t').jobs.filter _
    rw [hview, hview']
    exact h.jobs
  · change ((d.2.write _).view t).runs.filter _ = ((d'.2.write _).view t').runs.filter _
    rw [hview, hview', ← heq]
    simp only [Write.apply]
    rw [filter_update _ (huser _), filter_update _ (huser _), h.runs]

theorem insertEvent (h : Alike u t t' d d') {row : RunEvent}
    (hrow : ∃ j ∈ t.jobs, j.jobId = row.jobId ∧ j.userId = u)
    (hrow' : ∃ j ∈ t'.jobs, j.jobId = row.jobId ∧ j.userId = u) :
    Twin pick pick' u t t' (fun _ => Alike u t t') (Txn.insertEvent row) d d' := by
  rintro r ⟨seq, ses⟩ r' ⟨seq', ses'⟩ hr hr'
  simp only [Stmt.exec, Option.some.injEq] at hr hr'
  obtain ⟨-, -, rfl⟩ := hr
  obtain ⟨-, -, rfl⟩ := hr'
  refine ⟨rfl, ?_, ?_, ?_, ?_, h.loaded, h.entities⟩
  · exact d.2.view_write _ t ▸ h.left.insertEvent hrow
  · exact d'.2.view_write _ t' ▸ h.right.insertEvent hrow'
  · change ((d.2.write _).view t).jobs.filter _ = ((d'.2.write _).view t').jobs.filter _
    rw [d.2.view_write, d'.2.view_write]
    exact h.jobs
  · change ((d.2.write _).view t).runs.filter _ = ((d'.2.write _).view t').runs.filter _
    rw [d.2.view_write, d'.2.view_write]
    exact h.runs

end Alike

end TaskScheduler
