import TaskScheduler.Ledger.Ended
import TaskScheduler.Ledger.Load

/-! Chains of jobs in histories without cancels and without repeated deliveries.  A job whose trigger
chain starts at a schedule never ends; every other job has one run at most, and its downstreams wait
for the one terminal event of that run. -/

namespace TaskScheduler

/-- The job has a schedule, or its trigger chain starts at one. -/
inductive Recurs (jobs : List Job) : Nat → Prop
  | schedule {j : Job} (hj : j ∈ jobs) (h : j.cronExpr.isSome = true) : Recurs jobs j.jobId
  | chained {j : Job} {p : Nat} (hj : j ∈ jobs) (hp : j.triggerOnJobId = some p)
      (h : Recurs jobs p) : Recurs jobs j.jobId

/-- Which jobs recur depends on their definitions only. -/
theorem Recurs.congr {jobs jobs' : List Job} {id : Nat} (h : Recurs jobs id)
    (hdef : ∀ j ∈ jobs, ∃ j' ∈ jobs', j'.jobId = j.jobId ∧ j'.cronExpr = j.cronExpr ∧
      j'.triggerOnJobId = j.triggerOnJobId) : Recurs jobs' id := by
  induction h with
  | schedule hj h =>
    obtain ⟨j', hj', hid, hcron, -⟩ := hdef _ hj
    rw [← hid]
    exact .schedule hj' (hcron ▸ h)
  | chained hj hp _ ih =>
    obtain ⟨j', hj', hid, -, htr⟩ := hdef _ hj
    rw [← hid]
    exact .chained hj' (htr.trans hp) ih

theorem recurs_setJob {t : Tables} {id d : Nat} {set : Job → Job}
    (hset : ∀ j, (set j).jobId = j.jobId ∧ (set j).cronExpr = j.cronExpr ∧
      (set j).triggerOnJobId = j.triggerOnJobId) :
    Recurs (t.setJob id set).jobs d ↔ Recurs t.jobs d := by
  constructor
  · intro h
    refine h.congr fun j' hj' => ?_
    obtain ⟨j, hj, rfl⟩ := Tables.mem_setJob.mp hj'
    refine ⟨j, hj, ?_⟩
    split
    · exact ⟨(hset j).1.symm, (hset j).2.1.symm, (hset j).2.2.symm⟩
    · exact ⟨rfl, rfl, rfl⟩
  · intro h
    refine h.congr fun j hj => ⟨_, Tables.mem_setJob.mpr ⟨j, hj, rfl⟩, ?_⟩
    split
    · exact hset j
    · exact ⟨rfl, rfl, rfl⟩

theorem recurs_addJob {t : Tables} {seq : Seq} (hk : Coherent t seq) {row : Job}
    (hid : row.jobId = seq.jobs) {d : Nat} (hd : ∃ j ∈ t.jobs, j.jobId = d) :
    Recurs (t.jobs ++ [row]) d ↔ Recurs t.jobs d := by
  have hold : ∀ j ∈ t.jobs ++ [row], (∃ i ∈ t.jobs, i.jobId = j.jobId) → j ∈ t.jobs := by
    rintro j hj ⟨i, hi, hij⟩
    rcases List.mem_append.mp hj with hj | hj
    · exact hj
    · rw [List.mem_singleton.mp hj, hid] at hij
      exact absurd hij (hk.jobs.below i hi).ne
  constructor
  · intro h
    induction h with
    | schedule hj h => exact .schedule (hold _ hj hd) h
    | chained hj hp _ ih =>
      have hj' := hold _ hj hd
      exact .chained hj' hp (ih (hk.trigger _ hj' _ hp).2)
  · intro h
    exact h.congr fun j hj => ⟨j, List.mem_append_left _ hj, rfl, rfl, rfl⟩

namespace Ledger

/-- The terminal event is processed, or being processed. -/
def Taken (L : Ledger) (e : RunEvent) : Prop := e.unprocessed = false ∨ L.spent e.eventId

/-- The invariant of the chains. -/
structure Chained (L : Ledger) : Prop where
  live : ∀ j ∈ L.tables.jobs, j.state ≠ .cancelled
  recurs : ∀ j ∈ L.tables.jobs, Recurs L.tables.jobs j.jobId → j.state = .active
  single : ∀ r ∈ L.tables.runs, ∀ r' ∈ L.tables.runs, r.jobId = r'.jobId →
    ¬Recurs L.tables.jobs r.jobId → r.runId = r'.runId
  /-- A run of a chained job is caused by a terminal event of its trigger. -/
  cause : ∀ r ∈ L.tables.runs, ∀ j ∈ L.tables.jobs, j.jobId = r.jobId → ∀ p,
    j.triggerOnJobId = some p → ∃ e ∈ L.tables.events, e.eventType.terminal = true ∧
      r.waitForRunId = some e.runId ∧ e.jobId = p ∧ L.Taken e
  /-- A trigger that has fired is completed, or about to be. -/
  fired : ∀ r ∈ L.tables.runs, ∀ j ∈ L.tables.jobs, j.jobId = r.jobId → ∀ p,
    j.triggerOnJobId = some p → ¬Recurs L.tables.jobs p → L.tables.Completed p ∨ L.due p
  /-- While the trigger owes a settle check, the runs that it has caused are new. -/
  fresh : ∀ j ∈ L.tables.jobs, ∀ p, j.triggerOnJobId = some p → L.due p → ¬Recurs L.tables.jobs p →
    ∀ r ∈ L.tables.runs, r.jobId = j.jobId → r.status.executing = true
  own : ∀ e ∈ L.tables.events, e.eventType.terminal = true → L.due e.jobId →
    ¬Recurs L.tables.jobs e.jobId → L.Taken e
  above : ∀ j ∈ L.tables.jobs, L.due j.jobId → ∀ p, j.triggerOnJobId = some p →
    ¬L.tables.Active p → ∀ e ∈ L.tables.events, e.eventType.terminal = true → e.jobId = p →
      L.Taken e
  /-- A completed job has no terminal event of its trigger to wait for. -/
  settled : ∀ j ∈ L.tables.jobs, j.state = .completed → ∀ p, j.triggerOnJobId = some p →
    ∀ e ∈ L.tables.events, e.eventType.terminal = true → e.jobId = p → L.Taken e

namespace Chained

variable {m : Mode} {libs : Libs} {L L' : Ledger}

/-- A job that does not recur has one terminal event at most. -/
theorem same_event (h : L.Chained) (hk : Coherent L.tables L.seq) (hend : Ended L.tables)
    {e e' : RunEvent} (he : e ∈ L.tables.events) (he' : e' ∈ L.tables.events)
    (ht : e.eventType.terminal = true) (ht' : e'.eventType.terminal = true)
    (hjob : e.jobId = e'.jobId) (hrec : ¬Recurs L.tables.jobs e.jobId) : e = e' := by
  obtain ⟨r, hr, hre, hrj⟩ := hk.event_run e he
  obtain ⟨r', hr', hre', hrj'⟩ := hk.event_run e' he'
  have hrun := h.single r hr r' hr' (hrj.trans (hjob.trans hrj'.symm)) (hrj ▸ hrec)
  exact hk.event_eq he he' (hend.once e he e' he' ht ht' (hre.symm.trans (hrun.trans hre')))

/-- Before its one terminal event is taken up, a job that does not recur has caused no run. -/
theorem no_run (h : L.Chained) (hk : Coherent L.tables L.seq) (hend : Ended L.tables) {e : RunEvent}
    (he : e ∈ L.tables.events) (ht : e.eventType.terminal = true) (hnot : ¬L.Taken e)
    (hrec : ¬Recurs L.tables.jobs e.jobId) {j : Job} (hj : j ∈ L.tables.jobs)
    (hp : j.triggerOnJobId = some e.jobId) {r : JobRun} (hr : r ∈ L.tables.runs) :
    r.jobId ≠ j.jobId := by
  intro hrj
  obtain ⟨e', he', ht', -, hjob, htaken⟩ := h.cause r hr j hj hrj.symm e.jobId hp
  rw [h.same_event hk hend he he' ht ht' hjob.symm hrec] at hnot
  exact hnot htaken

theorem not_recurs_trigger {t : Tables} {j : Job} {p : Nat} (hj : j ∈ t.jobs)
    (hp : j.triggerOnJobId = some p) (hrec : ¬Recurs t.jobs j.jobId) : ¬Recurs t.jobs p :=
  fun h => hrec (.chained hj hp h)

theorem addJob (h : L.Chained) (hk : Coherent L.tables L.seq) {start : Int} {row : Job}
    (hstate : row.state = .active)
    (hparent : ∀ p, row.triggerOnJobId = some p → L.tables.Active p) :
    (L.addJob start row).Chained := by
  have hrow : ∀ j ∈ (L.addJob start row).tables.jobs, j ∈ L.tables.jobs ∨
      (j.jobId = L.seq.jobs ∧ j.state = .active ∧ j.triggerOnJobId = row.triggerOnJobId) := by
    intro j hj
    rcases List.mem_append.mp hj with hj | hj
    · exact .inl hj
    · rw [List.mem_singleton.mp hj]
      exact .inr ⟨rfl, hstate, rfl⟩
  have hrecurs : ∀ d, (∃ j ∈ L.tables.jobs, j.jobId = d) →
      (Recurs (L.addJob start row).tables.jobs d ↔ Recurs L.tables.jobs d) :=
    fun d hd => recurs_addJob hk rfl hd
  have hnew : ∀ r ∈ L.tables.runs, r.jobId ≠ L.seq.jobs := by
    intro r hr heq
    obtain ⟨j, hj, hjr⟩ := hk.run_job r hr
    exact (hk.jobs.below j hj).ne (hjr.trans heq)
  constructor
  · intro j hj
    rcases hrow j hj with hj | ⟨-, hs, -⟩
    · exact h.live j hj
    · rw [hs]; simp
  · intro j hj hrec
    rcases hrow j hj with hj | ⟨-, hs, -⟩
    · exact h.recurs j hj ((hrecurs _ ⟨j, hj, rfl⟩).mp hrec)
    · exact hs
  · intro r hr r' hr' hjob hrec
    exact h.single r hr r' hr' hjob (mt (hrecurs _ (hk.run_job r hr)).mpr hrec)
  · intro r hr j hj hjr p hp
    rcases hrow j hj with hj | ⟨hid, -, -⟩
    · exact h.cause r hr j hj hjr p hp
    · exact absurd (hjr.symm.trans hid) (hnew r hr)
  · intro r hr j hj hjr p hp hrec
    rcases hrow j hj with hj | ⟨hid, -, -⟩
    · rcases h.fired r hr j hj hjr p hp
        (mt (hrecurs _ (hk.trigger j hj p hp).2).mpr hrec) with ⟨i, hi, hrest⟩ | hd
      · exact .inl ⟨i, List.mem_append_left _ hi, hrest⟩
      · exact .inr (.inl hd)
    · exact absurd (hjr.symm.trans hid) (hnew r hr)
  · intro j hj p hp hdue hrec r hr hrj
    rcases hrow j hj with hj | ⟨hid, -, -⟩
    · obtain ⟨hlt, hex⟩ := hk.trigger j hj p hp
      rcases hdue with hd | rfl
      · exact h.fresh j hj p hp hd (mt (hrecurs _ hex).mpr hrec) r hr hrj
      · exact absurd (hk.jobs.below j hj) (by omega)
    · exact absurd (hrj.trans hid) (hnew r hr)
  · intro e he ht hdue hrec
    obtain ⟨r, hr, -, hrj⟩ := hk.event_run e he
    rcases hdue with hd | heq
    · exact h.own e he ht hd (mt (hrecurs _ (hrj ▸ hk.run_job r hr)).mpr hrec)
    · exact absurd (hrj.trans heq) (hnew r hr)
  · intro j hj hdue p hp hna e he ht hep
    have hna' : ¬L.tables.Active p := fun ⟨i, hi, hrest⟩ =>
      hna ⟨i, List.mem_append_left _ hi, hrest⟩
    rcases hrow j hj with hj | ⟨-, -, htr⟩
    · rcases hdue with hd | heq
      · exact h.above j hj hd p hp hna' e he ht hep
      · exact absurd heq (hk.jobs.below j hj).ne
    · exact absurd (hparent p (htr ▸ hp)) hna'
  · intro j hj hs
    rcases hrow j hj with hj | ⟨-, hs', -⟩
    · exact h.settled j hj hs
    · rw [hs'] at hs
      cases hs

theorem spawn (h : L.Chained) (hk : Coherent L.tables L.seq) (hend : Ended L.tables)
    {start runAt : Int} {job entity : Job} {wait : Option Nat} (hjob : job ∈ L.tables.jobs)
    (hsame : entity.jobId = job.jobId)
    (hclash : L.tables.runs.any
      (storedRun L.seq start (.new entity runAt .pending wait)).clashes = false)
    (hcause : Cause m libs L job runAt wait) {row : RunEvent}
    (hrow : row.eventType.terminal = false) :
    ((L.addRun start (.new entity runAt .pending wait)).log start row).Chained := by
  have hevent : ∀ e ∈ ((L.addRun start (.new entity runAt .pending wait)).log start
      row).tables.events, e.eventType.terminal = true → e ∈ L.tables.events := by
    intro e he ht
    rcases List.mem_append.mp he with he | he
    · exact he
    · rw [List.mem_singleton.mp he] at ht
      exact absurd (hrow.symm.trans ht) (by simp)
  -- a job that does not recur and has a run has no second cause
  have hfirst : ¬Recurs L.tables.jobs job.jobId → ∀ r ∈ L.tables.runs, r.jobId ≠ job.jobId := by
    intro hrec r hr hrj
    cases hcause with
    | initial _ hfirst => exact hfirst r hr hrj
    | successor hcron => exact hrec (.schedule hjob (by simp [hcron]))
    | @upstream e he ht _ _ _ hp =>
      obtain ⟨e', he', ht', hwait, hjob', -⟩ := h.cause r hr job hjob hrj.symm e.jobId hp
      have heq := h.same_event hk hend he he' ht ht' hjob'.symm (not_recurs_trigger hjob hp hrec)
      rw [List.any_eq_false] at hclash
      refine hclash r hr ?_
      simp [JobRun.clashes, storedRun, JobRun.new, hsame, hrj, hwait, heq]
  constructor
  · exact h.live
  · exact h.recurs
  · intro r hr r' hr' hjobs hrec
    rcases List.mem_append.mp hr with hr | hr <;> rcases List.mem_append.mp hr' with hr' | hr'
    · exact h.single r hr r' hr' hjobs hrec
    · rw [List.mem_singleton.mp hr'] at hjobs
      have heq : r.jobId = job.jobId := hjobs.trans hsame
      exact absurd heq (hfirst (heq ▸ hrec) r hr)
    · rw [List.mem_singleton.mp hr] at hjobs hrec
      have heq : r'.jobId = job.jobId := hjobs.symm.trans hsame
      refine absurd heq (hfirst ?_ r' hr')
      rw [← hsame]
      exact hrec
    · rw [List.mem_singleton.mp hr, List.mem_singleton.mp hr']
  · intro r hr j hj hjr p hp
    rcases List.mem_append.mp hr with hr | hr
    · obtain ⟨e, he, hrest⟩ := h.cause r hr j hj hjr p hp
      exact ⟨e, List.mem_append_left _ he, hrest⟩
    · rw [List.mem_singleton.mp hr] at hjr ⊢
      have hj_eq := hk.job_eq hj hjob (hjr.trans hsame)
      subst hj_eq
      cases hcause with
      | initial hfree => rw [hp] at hfree; cases hfree
      | successor hcron =>
        rw [(hk.lifecycle j hj).chained (by simp [hp])] at hcron
        cases hcron
      | @upstream e he ht _ hspent _ hp' =>
        rw [hp, Option.some.injEq] at hp'
        exact ⟨e, List.mem_append_left _ he, ht, rfl, hp'.symm, .inr hspent⟩
  · intro r hr j hj hjr p hp hrec
    rcases List.mem_append.mp hr with hr | hr
    · exact h.fired r hr j hj hjr p hp hrec
    · rw [List.mem_singleton.mp hr] at hjr
      have hj_eq := hk.job_eq hj hjob (hjr.trans hsame)
      subst hj_eq
      cases hcause with
      | initial hfree => rw [hp] at hfree; cases hfree
      | successor hcron =>
        rw [(hk.lifecycle j hj).chained (by simp [hp])] at hcron
        cases hcron
      | upstream _ _ _ _ hdue hp' =>
        rw [hp, Option.some.injEq] at hp'
        exact .inr (hp' ▸ hdue)
  · intro j hj p hp hdue hrec r hr hrj
    rcases List.mem_append.mp hr with hr | hr
    · exact h.fresh j hj p hp hdue hrec r hr hrj
    · rw [List.mem_singleton.mp hr]
      rfl
  · exact fun e he ht => h.own e (hevent e he ht) ht
  · exact fun j hj hd p hp hna e he ht => h.above j hj hd p hp hna e (hevent e he ht) ht
  · exact fun j hj hs p hp e he ht => h.settled j hj hs p hp e (hevent e he ht) ht

/-- A run is updated, with an event of it; a terminal one only of a job that is not completed. -/
theorem setRun (h : L.Chained) (hk : Coherent L.tables L.seq) (hres : L.Resident) {r : JobRun}
    {set : JobRun → JobRun} (hr : r ∈ L.tables.runs) (hset : r.SameRun (set r))
    (hdue : (∀ id, ¬L.due id) ∨ (set r).status = r.status) {events : List RunEvent} {seq : Seq}
    (hold : ∀ e ∈ L.tables.events, e ∈ events)
    (hevents : ∀ e ∈ events, e.eventType.terminal = true → e ∈ L.tables.events ∨
      (e.jobId = r.jobId ∧ r.status.executing = true ∧ ∀ id, ¬L.due id)) :
    ({ L with tables := { L.tables.setRun r.runId set with events := events },
              seq := seq } : Ledger).Chained := by
  have hback : ∀ x' ∈ (L.tables.setRun r.runId set).runs, ∃ x ∈ L.tables.runs,
      x'.runId = x.runId ∧ x'.jobId = x.jobId ∧ x'.waitForRunId = x.waitForRunId ∧
      ((∀ id, ¬L.due id) ∨ x'.status = x.status) := by
    intro x' hx'
    obtain ⟨x, hx, rfl⟩ := Tables.mem_setRun.mp hx'
    split
    · next heq =>
      rw [hk.run_eq hx hr heq]
      exact ⟨r, hr, hset.runId, hset.jobId, hset.waitForRunId, hdue⟩
    · exact ⟨x, hx, rfl, rfl, rfl, .inr rfl⟩
  constructor
  · exact h.live
  · exact h.recurs
  · intro x' hx' y' hy' hjobs hrec
    obtain ⟨x, hx, hxid, hxj, -⟩ := hback x' hx'
    obtain ⟨y, hy, hyid, hyj, -⟩ := hback y' hy'
    rw [hxid, hyid]
    exact h.single x hx y hy (by rw [← hxj, ← hyj, hjobs]) (hxj ▸ hrec)
  · intro x' hx' j hj hjx p hp
    obtain ⟨x, hx, -, hxj, hxw, -⟩ := hback x' hx'
    obtain ⟨e, he, hrest⟩ := h.cause x hx j hj (hjx.trans hxj) p hp
    rw [hxw]
    exact ⟨e, hold e he, hrest⟩
  · intro x' hx' j hj hjx
    obtain ⟨x, hx, -, hxj, -⟩ := hback x' hx'
    exact h.fired x hx j hj (hjx.trans hxj)
  · intro j hj p hp hd hrec x' hx' hxj'
    obtain ⟨x, hx, -, hxj, -, hnone | hs⟩ := hback x' hx'
    · exact absurd hd (hnone p)
    · rw [hs]
      exact h.fresh j hj p hp hd hrec x hx (hxj.symm.trans hxj')
  · intro e he ht hd
    rcases hevents e he ht with he | ⟨-, -, hnone⟩
    · exact h.own e he ht hd
    · exact absurd hd (hnone _)
  · intro j hj hd p hp hna e he ht
    rcases hevents e he ht with he | ⟨-, -, hnone⟩
    · exact h.above j hj hd p hp hna e he ht
    · exact absurd hd (hnone _)
  · intro j hj hs p hp e he ht hep
    rcases hevents e he ht with he | ⟨hjob, hexec, -⟩
    · exact h.settled j hj hs p hp e he ht hep
    · -- the trigger of a completed job is completed too, so it executes nothing
      have hna := hres.completed_trigger j hj hs p hp
      obtain ⟨i, hi, hip⟩ := (hk.trigger j hj p hp).2
      refine absurd ?_ (hres.completed_idle i hi ?_)
      · exact ⟨r, hr, by rw [hip, ← hep, hjob], hexec⟩
      · cases his : i.state with
        | active => exact absurd ⟨i, hi, hip, his⟩ hna
        | completed => rfl
        | cancelled => exact absurd his (h.live i hi)

theorem mark (h : L.Chained) (hk : Coherent L.tables L.seq) (hend : Ended L.tables) {e : RunEvent}
    (he : e ∈ L.tables.events) (ht : e.eventType.terminal = true) (hnot : ¬L.Taken e) :
    (L.mark e).Chained := by
  have hmono : ∀ x, L.Taken x → (L.mark e).Taken x := fun x hx => hx.imp_right .inl
  have hself : (L.mark e).Taken e := .inr (.inr rfl)
  -- the job of the event has caused no run yet, and so none has been caused further down
  have hnone : ∀ {p}, (p = e.jobId ∨ L.tables.ActiveChild e.jobId p) → ¬Recurs L.tables.jobs p →
      ∀ j ∈ L.tables.jobs, j.triggerOnJobId = some p → ∀ r ∈ L.tables.runs, r.jobId ≠ j.jobId := by
    rintro p (rfl | ⟨i, hi, rfl, hip, -⟩) hrec j hj hp r hr hrj
    · exact h.no_run hk hend he ht hnot hrec hj hp hr hrj
    · obtain ⟨e', he', -, -, hjob, -⟩ := h.cause r hr j hj hrj.symm i.jobId hp
      obtain ⟨r', hr', -, hrj'⟩ := hk.event_run e' he'
      exact h.no_run hk hend he ht hnot (not_recurs_trigger hi hip hrec) hi hip hr'
        (hrj'.trans hjob)
  constructor
  · exact h.live
  · exact h.recurs
  · exact h.single
  · intro r hr j hj hjr p hp
    obtain ⟨x, hx, hxt, hw, hxj, htaken⟩ := h.cause r hr j hj hjr p hp
    exact ⟨x, hx, hxt, hw, hxj, hmono x htaken⟩
  · exact fun r hr j hj hjr p hp hrec => (h.fired r hr j hj hjr p hp hrec).imp_right .inl
  · rintro j hj p hp (hd | hd | ⟨hd, -⟩) hrec r hr hrj
    · exact h.fresh j hj p hp hd hrec r hr hrj
    · exact absurd hrj (hnone (.inl hd) hrec j hj hp r hr)
    · exact absurd hrj (hnone (.inr hd) hrec j hj hp r hr)
  · rintro x hx hxt (hd | hd | ⟨⟨i, hi, hii, hip, -⟩, -⟩) hrec
    · exact hmono x (h.own x hx hxt hd hrec)
    · rw [h.same_event hk hend hx he hxt ht hd hrec]
      exact hself
    · obtain ⟨r, hr, -, hrj⟩ := hk.event_run x hx
      rw [← hii] at hrec hrj
      exact absurd hrj
        (h.no_run hk hend he ht hnot (not_recurs_trigger hi hip hrec) hi hip hr)
  · rintro j hj (hd | hd | ⟨⟨i, hi, hii, hip, -⟩, -⟩) p hp hna x hx hxt hxp
    · exact hmono x (h.above j hj hd p hp hna x hx hxt hxp)
    · -- the run that has ended was caused by the one terminal event of its trigger
      have hrec : ¬Recurs L.tables.jobs p := by
        intro hrec
        obtain ⟨i, hi, hip⟩ := (hk.trigger j hj p hp).2
        exact hna ⟨i, hi, hip, h.recurs i hi (hip ▸ hrec)⟩
      obtain ⟨r, hr, -, hrj⟩ := hk.event_run e he
      obtain ⟨y, hy, hyt, -, hyp, htaken⟩ := h.cause r hr j hj (hd.trans hrj.symm) p hp
      rw [h.same_event hk hend hx hy hxt hyt (hxp.trans hyp.symm) (hxp ▸ hrec)]
      exact hmono y htaken
    · rw [hk.job_eq hj hi hii.symm, hip, Option.some.injEq] at hp
      subst hp
      have hrec : ¬Recurs L.tables.jobs e.jobId := by
        intro hrec
        obtain ⟨r, hr, -, hrj⟩ := hk.event_run e he
        obtain ⟨k, hkj, hkr⟩ := hk.run_job r hr
        have hid := hkr.trans hrj
        exact hna ⟨k, hkj, hid, h.recurs k hkj (hid ▸ hrec)⟩
      rw [h.same_event hk hend hx he hxt ht hxp (hxp ▸ hrec)]
      exact hself
  · exact fun j hj hs p hp x hx hxt hxp => hmono x (h.settled j hj hs p hp x hx hxt hxp)

theorem stamp (h : L.Chained) {id : Nat} {by_ : List (String × Int)}
    (hkey : by_.any (fun kv => kv.1 == processedByKey) = true) : (L.stamp id by_).Chained := by
  have hfwd : ∀ e ∈ L.tables.events, ∃ e' ∈ (L.stamp id by_).tables.events,
      e'.eventType = e.eventType ∧ e'.runId = e.runId ∧ e'.jobId = e.jobId ∧
      (L.Taken e → (L.stamp id by_).Taken e') := by
    intro e he
    refine ⟨_, Tables.mem_setEvent.mpr ⟨e, he, rfl⟩, ?_⟩
    split
    · refine ⟨rfl, rfl, rfl, fun _ => .inl ?_⟩
      simp [RunEvent.unprocessed, RunEvent.hasKey, hkey]
    · next hne => exact ⟨rfl, rfl, rfl, fun ht => ht.imp_right fun hs => ⟨hs, hne⟩⟩
  have hback : ∀ e' ∈ (L.stamp id by_).tables.events, ∃ e ∈ L.tables.events,
      e'.eventType = e.eventType ∧ e'.jobId = e.jobId ∧
      (L.Taken e → (L.stamp id by_).Taken e') := by
    intro e' he'
    obtain ⟨e, he, rfl⟩ := Tables.mem_setEvent.mp he'
    refine ⟨e, he, ?_⟩
    split
    · refine ⟨rfl, rfl, fun _ => .inl ?_⟩
      simp [RunEvent.unprocessed, RunEvent.hasKey, hkey]
    · next hne => exact ⟨rfl, rfl, fun ht => ht.imp_right fun hs => ⟨hs, hne⟩⟩
  constructor
  · exact h.live
  · exact h.recurs
  · exact h.single
  · intro r hr j hj hjr p hp
    obtain ⟨e, he, ht, hw, hjob, htaken⟩ := h.cause r hr j hj hjr p hp
    obtain ⟨e', he', htype, hrun, hjob', hmono⟩ := hfwd e he
    exact ⟨e', he', htype ▸ ht, hrun ▸ hw, hjob'.trans hjob, hmono htaken⟩
  · exact h.fired
  · exact h.fresh
  · intro e' he' ht hd hrec
    obtain ⟨e, he, htype, hjob, hmono⟩ := hback e' he'
    exact hmono (h.own e he (htype ▸ ht) (hjob ▸ hd) (hjob ▸ hrec))
  · intro j hj hd p hp hna e' he' ht hep
    obtain ⟨e, he, htype, hjob, hmono⟩ := hback e' he'
    exact hmono (h.above j hj hd p hp hna e he (htype ▸ ht) (hjob ▸ hep))
  · intro j hj hs p hp e' he' ht hep
    obtain ⟨e, he, htype, hjob, hmono⟩ := hback e' he'
    exact hmono (h.settled j hj hs p hp e he (htype ▸ ht) (hjob ▸ hep))

/-- A job that does not recur is completed.  The jobs that come to owe a settle check are some of
those it triggers, and it does not owe one any more. -/
theorem complete (h : L.Chained) (hk : Coherent L.tables L.seq) (hend : Ended L.tables) {j₀ : Job}
    {now : Int} {due : Nat → Prop} (hj₀ : j₀ ∈ L.tables.jobs)
    (hrec : ¬Recurs L.tables.jobs j₀.jobId)
    (hdue : ∀ d, due d → (L.due d ∧ d ≠ j₀.jobId) ∨
      (L.due j₀.jobId ∧ L.tables.Child j₀.jobId d))
    (hkeep : ∀ d, L.due d → d ≠ j₀.jobId → due d)
    (hchild : L.due j₀.jobId ∨ ∀ d, ¬due d)
    (habove : ∀ p, j₀.triggerOnJobId = some p → ∀ e ∈ L.tables.events,
      e.eventType.terminal = true → e.jobId = p → L.Taken e) :
    ({ L.setJob j₀.jobId (Job.settle now) with due := due } : Ledger).Chained := by
  have hrecurs : ∀ d, Recurs (L.tables.setJob j₀.jobId (Job.settle now)).jobs d ↔
      Recurs L.tables.jobs d := fun d => recurs_setJob fun _ => ⟨rfl, rfl, rfl⟩
  have hrow : ∀ j' ∈ (L.tables.setJob j₀.jobId (Job.settle now)).jobs, ∃ j ∈ L.tables.jobs,
      j'.jobId = j.jobId ∧ j'.triggerOnJobId = j.triggerOnJobId ∧
      ((j' = j ∧ j.jobId ≠ j₀.jobId) ∨ (j = j₀ ∧ j'.state = .completed)) := by
    intro j' hj'
    obtain ⟨j, hj, rfl⟩ := Tables.mem_setJob.mp hj'
    split
    · next heq => exact ⟨j, hj, rfl, rfl, .inr ⟨hk.job_eq hj hj₀ heq, rfl⟩⟩
    · next hne => exact ⟨j, hj, rfl, rfl, .inl ⟨rfl, hne⟩⟩
  have hcompleted : ∀ p, L.tables.Completed p →
      (L.tables.setJob j₀.jobId (Job.settle now)).Completed p := by
    rintro p ⟨j, hj, hid, hs⟩
    refine ⟨_, Tables.mem_setJob.mpr ⟨j, hj, rfl⟩, ?_⟩
    split
    · exact ⟨hid, rfl⟩
    · exact ⟨hid, hs⟩
  have hactive : ∀ p, p ≠ j₀.jobId → L.tables.Active p →
      (L.tables.setJob j₀.jobId (Job.settle now)).Active p := by
    rintro p hne ⟨j, hj, rfl, hs⟩
    exact ⟨j, Tables.mem_setJob.mpr ⟨j, hj, if_neg hne⟩, rfl, hs⟩
  -- a job that comes to owe a check has nothing but new runs, so no terminal event
  have hnew : ∀ d, L.due j₀.jobId → L.tables.Child j₀.jobId d → ∀ e ∈ L.tables.events,
      e.eventType.terminal = true → e.jobId ≠ d := by
    rintro d hd₀ ⟨j, hj, rfl, hp⟩ e he ht hej
    obtain ⟨r, hr, hre, hrj⟩ := hk.event_run e he
    have hexec := h.fresh j hj j₀.jobId hp hd₀ hrec r hr (hrj.trans hej)
    rw [RunStatus.executing_eq_not_terminal, hend.ended e he ht r hr hre] at hexec
    cases hexec
  constructor
  · intro j' hj'
    obtain ⟨j, hj, -, -, ⟨rfl, -⟩ | ⟨-, hs⟩⟩ := hrow j' hj'
    · exact h.live _ hj
    · rw [hs]; simp
  · intro j' hj' hrj
    obtain ⟨j, hj, hid, -, ⟨rfl, -⟩ | ⟨rfl, -⟩⟩ := hrow j' hj'
    · exact h.recurs _ hj ((hrecurs _).mp hrj)
    · exact absurd (hid ▸ (hrecurs _).mp hrj) hrec
  · exact fun r hr r' hr' hjobs hr₀ => h.single r hr r' hr' hjobs (mt (hrecurs _).mpr hr₀)
  · intro r hr j' hj' hjr p hp
    obtain ⟨j, hj, hid, htr, -⟩ := hrow j' hj'
    exact h.cause r hr j hj (hid.symm.trans hjr) p (htr ▸ hp)
  · intro r hr j' hj' hjr p hp hrp
    obtain ⟨j, hj, hid, htr, -⟩ := hrow j' hj'
    rcases h.fired r hr j hj (hid.symm.trans hjr) p (htr ▸ hp) (mt (hrecurs _).mpr hrp) with
      hc | hd
    · exact .inl (hcompleted p hc)
    · by_cases hp₀ : p = j₀.jobId
      · subst hp₀
        exact .inl ⟨j₀.settle now, Tables.mem_setJob.mpr ⟨j₀, hj₀, if_pos rfl⟩, rfl, rfl⟩
      · exact .inr (hkeep p hd hp₀)
  · intro j' hj' p hp hd hrp r hr hrj
    obtain ⟨j, hj, hid, htr, -⟩ := hrow j' hj'
    rcases hdue p hd with ⟨hd, -⟩ | ⟨hd₀, hchild⟩
    · exact h.fresh j hj p (htr ▸ hp) hd (mt (hrecurs _).mpr hrp) r hr (hrj.trans hid)
    · obtain ⟨e, he, ht, -, hjob, -⟩ := h.cause r hr j hj (hid.symm.trans hrj.symm) p (htr ▸ hp)
      exact absurd hjob (hnew p hd₀ hchild e he ht)
  · intro e he ht hd hre
    rcases hdue _ hd with ⟨hd, -⟩ | ⟨hd₀, hchild⟩
    · exact h.own e he ht hd (mt (hrecurs _).mpr hre)
    · exact absurd rfl (hnew _ hd₀ hchild e he ht)
  · intro j' hj' hd p hp hna e he ht hep
    obtain ⟨j, hj, hid, htr, -⟩ := hrow j' hj'
    have hd₀ : p = j₀.jobId → L.due j₀.jobId := fun _ => hchild.resolve_right fun h => h _ hd
    by_cases hp₀ : p = j₀.jobId
    · exact h.own e he ht (by rw [hep, hp₀]; exact hd₀ hp₀) (by rw [hep, hp₀]; exact hrec)
    · rcases hdue _ hd with ⟨hd, -⟩ | ⟨-, i, hi, hij, hip⟩
      · exact h.above j hj (hid ▸ hd) p (htr ▸ hp) (mt (hactive p hp₀) hna) e he ht hep
      · rw [hk.job_eq hi hj (hij.trans hid), ← htr, hp, Option.some.injEq] at hip
        exact absurd hip hp₀
  · intro j' hj' hs p hp
    obtain ⟨j, hj, -, htr, ⟨rfl, -⟩ | ⟨rfl, -⟩⟩ := hrow j' hj'
    · exact h.settled _ hj hs p hp
    · exact habove p (htr ▸ hp)

theorem clear (h : L.Chained) (hk : Coherent L.tables L.seq) (hend : Ended L.tables) {id : Nat}
    (hex : ¬L.tables.Exhausted id) : (L.clear id).Chained := by
  refine ⟨h.live, h.recurs, h.single, h.cause, ?_, ?_, ?_, ?_, h.settled⟩
  · intro r hr j hj hjr p hp hrec
    rcases h.fired r hr j hj hjr p hp hrec with hc | hd
    · exact .inl hc
    · by_cases hpid : p = id
      swap
      · exact .inr ⟨hd, hpid⟩
      left
      subst hpid
      -- its only run has ended, and its own trigger is completed: only its state can stop the check
      obtain ⟨i, hi, rfl⟩ := (hk.trigger j hj p hp).2
      obtain ⟨e, he, ht, -, hjob, -⟩ := h.cause r hr j hj hjr i.jobId hp
      obtain ⟨x, hx, hxe, hxj⟩ := hk.event_run e he
      have hxend := hend.ended e he ht x hx hxe
      have hlive : ∀ y : JobRun, y = x → ¬y.status.executing = true := by
        rintro y rfl
        rw [RunStatus.executing_eq_not_terminal, hxend]
        simp
      have hidle : ¬L.tables.Executing i.jobId := by
        rintro ⟨y, hy, hyj, hye⟩
        refine hlive y (hk.run_eq hy hx (h.single y hy x hx ?_ (hyj ▸ hrec))) hye
        rw [hyj, hxj, hjob]
      refine ⟨i, hi, rfl, ?_⟩
      cases hs : i.state with
      | completed => rfl
      | cancelled => exact absurd hs (h.live i hi)
      | active =>
        refine absurd ⟨i, hi, rfl, hs, ?_, hidle, fun q hq hqa => ?_⟩ hex
        · by_contra hcron
          exact hrec (.schedule hi (Option.isSome_iff_ne_none.mpr hcron))
        · have hrecq := not_recurs_trigger hi hq hrec
          rcases h.fired x hx i hi (hjob.symm.trans hxj.symm) q hq hrecq with
            ⟨k, hk', hkq, hks⟩ | hdq
          · obtain ⟨k', hk'', hkq', hks'⟩ := hqa
            rw [hk.job_eq hk' hk'' (hkq.trans hkq'.symm), hks'] at hks
            cases hks
          · exact hlive x rfl (h.fresh i hi q hq hdq hrecq x hx (hxj.trans hjob))
  · exact fun j hj p hp hd => h.fresh j hj p hp hd.1
  · exact fun e he ht hd => h.own e he ht hd.1
  · exact fun j hj hd => h.above j hj hd.1

/-- Every change of a history without cancels and repeated deliveries keeps the invariant. -/
theorem change (h : L.Chained) (hk : Coherent L.tables L.seq) (hend : Ended L.tables)
    (hres : L.Resident) (hcancels : ¬m.cancels) (hredelivers : ¬m.redelivers)
    (hc : Change m libs L L') : L'.Chained := by
  have huntaken : ∀ e : RunEvent, (m.redelivers ∨ e.unprocessed = true) → ¬L.spent e.eventId →
      ¬L.Taken e := by
    rintro e hnew hfresh (hdone | hspent)
    · rw [hnew.resolve_left hredelivers] at hdone
      cases hdone
    · exact hfresh hspent
  cases hc with
  | burn hle => exact ⟨h.live, h.recurs, h.single, h.cause, h.fired, h.fresh, h.own, h.above,
      h.settled⟩
  | addJob hstate hlife hparent => exact h.addJob hk hstate hparent
  | spawn hjob hsame hactive hidle hclash hcause => exact h.spawn hk hend hjob hsame hclash hcause rfl
  | @move start r set type data hdue hr hset htrans hends =>
    have hdue' := hdue.resolve_left hcancels
    refine h.setRun hk hres hr hset (.inl hdue') (fun e he => List.mem_append_left _ he) ?_
    intro e he _
    rcases List.mem_append.mp he with he | he
    · exact .inl he
    · rw [List.mem_singleton.mp he]
      exact .inr ⟨rfl, htrans.executing, hdue'⟩
  | touch hr hset hstatus =>
    exact h.setRun hk hres hr hset (.inr hstatus) (fun e he => he) fun e he _ => .inl he
  | @skip start e job type data he hterminal hnew hspent hjob hchild hskip =>
    have hold : ∀ x ∈ (L.log start (.new e.runId e.jobId type none none
        (some data))).tables.events, x.eventType.terminal = true → x ∈ L.tables.events := by
      intro x hx ht
      rcases List.mem_append.mp hx with hx | hx
      · exact hx
      · rw [List.mem_singleton.mp hx] at ht
        cases hskip <;> cases ht
    refine ⟨h.live, h.recurs, h.single, fun r hr j hj hjr p hp => ?_, h.fired, h.fresh,
      fun x hx ht => h.own x (hold x hx ht) ht,
      fun j hj hd p hp hna x hx ht => h.above j hj hd p hp hna x (hold x hx ht) ht,
      fun j hj hs p hp x hx ht => h.settled j hj hs p hp x (hold x hx ht) ht⟩
    obtain ⟨x, hx, hrest⟩ := h.cause r hr j hj hjr p hp
    exact ⟨x, List.mem_append_left _ hx, hrest⟩
  | mark he hterminal hnew hfresh => exact h.mark hk hend he hterminal (huntaken _ hnew hfresh)
  | stamp hspent hkey => exact h.stamp hkey
  | @settle id now hdue hex =>
    obtain ⟨j, hj, rfl, hs, hcron, -, hpar⟩ := hex
    have hrec : ¬Recurs L.tables.jobs j.jobId := by
      intro hrec
      generalize hid : j.jobId = id at hrec
      cases hrec with
      | schedule hi hi' =>
        rw [hk.job_eq hi hj hid.symm, hcron] at hi'
        cases hi'
      | chained hi hp hrec =>
        rw [hk.job_eq hi hj hid.symm] at hp
        obtain ⟨i, hi, hip⟩ := (hk.trigger j hj _ hp).2
        exact hpar _ hp ⟨i, hi, hip, h.recurs i hi (hip ▸ hrec)⟩
    refine h.complete hk hend hj hrec ?_ (fun d hd hne => .inl ⟨hd, hne⟩) (.inl hdue)
      fun p hp => h.above j hj hdue p hp (hpar p hp)
    rintro d (hd | ⟨i', hi', hid, hp⟩)
    · exact .inl hd
    · obtain ⟨i, hi, rfl⟩ := Tables.mem_setJob.mp hi'
      refine .inr ⟨hdue, i, hi, ?_⟩
      split at hid
      · next heq => rw [if_pos heq] at hp; exact ⟨hid, hp⟩
      · next heq => rw [if_neg heq] at hp; exact ⟨hid, hp⟩
  | clear hex => exact h.clear hk hend hex
  | @retire now j hdue hj hactive htype hfree hrun hevent =>
    have hrec : ¬Recurs L.tables.jobs j.jobId := by
      intro hrec
      generalize hid : j.jobId = id at hrec
      cases hrec with
      | schedule hi hi' =>
        rw [hk.job_eq hi hj hid.symm] at hi'
        exact htype ((hk.lifecycle j hj).recurring.mpr hi')
      | chained hi hp _ =>
        rw [hk.job_eq hi hj hid.symm, hfree] at hp
        cases hp
    exact h.complete hk hend hj hrec (fun d hd => absurd hd (hdue d))
      (fun d hd _ => hd) (.inr hdue) fun p hp => by rw [hfree] at hp; cases hp
  | cancel hmode hj hactive => exact absurd hmode hcancels

end Chained

end Ledger

end TaskScheduler
