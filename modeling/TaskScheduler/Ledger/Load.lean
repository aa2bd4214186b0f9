import TaskScheduler.Ledger.Atomic

/-! `Job.state` tracks resident load: a completed job executes nothing, and an active job that has
no schedule and executes nothing still waits for something that will settle it. -/

namespace TaskScheduler

/-- The outbox holds an unprocessed terminal event of the job. -/
def Tables.Unprocessed (t : Tables) (jobId : Nat) : Prop :=
  ∃ e ∈ t.events, e.jobId = jobId ∧ e.unprocessed = true

def Tables.Completed (t : Tables) (jobId : Nat) : Prop :=
  ∃ j ∈ t.jobs, j.jobId = jobId ∧ j.state = .completed

namespace Ledger

/-- The outbox holds a terminal event of the job that is neither processed nor being processed. -/
def Unspent (L : Ledger) (jobId : Nat) : Prop :=
  ∃ e ∈ L.tables.events, e.jobId = jobId ∧ e.unprocessed = true ∧ ¬L.spent e.eventId

/-- What an active job without load waits for: its trigger, its own terminal event, or a terminal
event of its completed trigger. -/
def Waiting (L : Ledger) (j : Job) : Prop :=
  (∃ p, j.triggerOnJobId = some p ∧ L.tables.Active p) ∨ L.Unspent j.jobId ∨
    ∃ p, j.triggerOnJobId = some p ∧ L.tables.Completed p ∧ L.Unspent p

/-- The invariant of the resident load. -/
structure Resident (L : Ledger) : Prop where
  spent_below : ∀ id, L.spent id → id < L.seq.events
  single : ∀ j ∈ L.tables.jobs, j.triggerOnJobId = none → j.cronExpr = none →
    ∀ r ∈ L.tables.runs, ∀ r' ∈ L.tables.runs, r.jobId = j.jobId → r'.jobId = j.jobId →
      r.runId = r'.runId
  completed_idle : ∀ j ∈ L.tables.jobs, j.state = .completed → ¬L.tables.Executing j.jobId
  completed_trigger : ∀ j ∈ L.tables.jobs, j.state = .completed →
    ∀ p, j.triggerOnJobId = some p → ¬L.tables.Active p
  waiting : ∀ j ∈ L.tables.jobs, j.state = .active → j.cronExpr = none →
    ¬L.tables.Executing j.jobId → ¬L.due j.jobId → L.Waiting j

theorem Waiting.mono {L L' : Ledger} {j : Job} (h : L.Waiting j)
    (hactive : ∀ p, j.triggerOnJobId = some p → L.tables.Active p → L'.tables.Active p)
    (hcompleted : ∀ p, L.tables.Completed p → L'.tables.Completed p)
    (hunspent : ∀ id, L.Unspent id → L'.Unspent id) : L'.Waiting j := by
  rcases h with ⟨p, hp, ha⟩ | hu | ⟨p, hp, hc, hu⟩
  · exact .inl ⟨p, hp, hactive p hp ha⟩
  · exact .inr (.inl (hunspent _ hu))
  · exact .inr (.inr ⟨p, hp, hcompleted p hc, hunspent p hu⟩)

theorem unspent_log {L : Ledger} {start : Int} {row : RunEvent} {id : Nat} (h : L.Unspent id) :
    (L.log start row).Unspent id := by
  obtain ⟨e, he, hrest⟩ := h
  exact ⟨e, List.mem_append_left _ he, hrest⟩

end Ledger

theorem Tables.Child.setJob {t : Tables} {id parent d : Nat} {set : Job → Job}
    (h : t.Child parent d)
    (hset : ∀ j, (set j).jobId = j.jobId ∧ (set j).triggerOnJobId = j.triggerOnJobId) :
    (t.setJob id set).Child parent d := by
  obtain ⟨i, hi, hid, hp⟩ := h
  refine ⟨_, Tables.mem_setJob.mpr ⟨i, hi, rfl⟩, ?_⟩
  split
  · exact ⟨(hset i).1.trans hid, (hset i).2.trans hp⟩
  · exact ⟨hid, hp⟩

/-- Which runs execute does not depend on rows that keep their job and their status. -/
theorem Tables.executing_setRun {t : Tables} {seq : Seq} (hk : Coherent t seq) {r : JobRun}
    {set : JobRun → JobRun} (hr : r ∈ t.runs) (hset : r.SameRun (set r))
    (hexec : r.status.executing = true) {id : Nat} (h : (t.setRun r.runId set).Executing id) :
    t.Executing id := by
  obtain ⟨x', hx', hid, hs⟩ := h
  obtain ⟨x, hx, rfl⟩ := Tables.mem_setRun.mp hx'
  split at hid
  · next heq =>
    rw [hk.run_eq hx hr heq] at hid
    exact ⟨r, hr, hset.jobId ▸ hid, hexec⟩
  · next hne =>
    rw [if_neg hne] at hs
    exact ⟨x, hx, hid, hs⟩

namespace Ledger.Resident

variable {m : Mode} {libs : Libs} {L L' : Ledger}

theorem addJob (h : L.Resident) (hk : Coherent L.tables L.seq) {start : Int} {row : Job}
    (hstate : row.state = .active) : (L.addJob start row).Resident := by
  have hactive : ∀ p, (∃ i ∈ L.tables.jobs, i.jobId = p) → (L.addJob start row).tables.Active p →
      L.tables.Active p := by
    rintro _ ⟨i, hi, rfl⟩ ⟨j, hj, hid, hs⟩
    rcases List.mem_append.mp hj with hj | hj
    · exact ⟨j, hj, hid, hs⟩
    · rw [List.mem_singleton.mp hj] at hid
      exact absurd hid.symm (hk.jobs.below i hi).ne
  constructor
  · exact h.spent_below
  · intro j hj htr hcron r hr r' hr' hrj hrj'
    rcases List.mem_append.mp hj with hj | hj
    · exact h.single j hj htr hcron r hr r' hr' hrj hrj'
    · rw [List.mem_singleton.mp hj] at hrj
      obtain ⟨i, hi, hir⟩ := hk.run_job r hr
      exact absurd (hir.trans hrj) (hk.jobs.below i hi).ne
  · intro j hj hs
    rcases List.mem_append.mp hj with hj | hj
    · exact h.completed_idle j hj hs
    · rw [List.mem_singleton.mp hj] at hs
      rw [storedJob, hstate] at hs
      cases hs
  · intro j hj hs p hp ha
    rcases List.mem_append.mp hj with hj | hj
    · exact h.completed_trigger j hj hs p hp (hactive p (hk.trigger j hj p hp).2 ha)
    · rw [List.mem_singleton.mp hj] at hs
      rw [storedJob, hstate] at hs
      cases hs
  · intro j hj hs hcron hidle hdue
    rcases List.mem_append.mp hj with hj | hj
    · refine (h.waiting j hj hs hcron hidle fun hd => hdue (.inl hd)).mono ?_ ?_ fun _ hu => hu
      · rintro p - ⟨i, hi, hrest⟩
        exact ⟨i, List.mem_append_left _ hi, hrest⟩
      · rintro p ⟨i, hi, hrest⟩
        exact ⟨i, List.mem_append_left _ hi, hrest⟩
    · rw [List.mem_singleton.mp hj] at hdue
      exact absurd (.inr rfl) hdue

theorem spawn (h : L.Resident) (hk : Coherent L.tables L.seq) {start runAt : Int}
    {job entity : Job} {wait : Option Nat} (hjob : job ∈ L.tables.jobs)
    (hsame : entity.jobId = job.jobId) (hactive : job.state = .active)
    (hcause : Cause m libs L job runAt wait) (row : RunEvent) :
    ((L.addRun start (.new entity runAt .pending wait)).log start row).Resident := by
  have hmem : ∀ {r}, r ∈ ((L.addRun start (.new entity runAt .pending wait)).log start
      row).tables.runs → r ∈ L.tables.runs ∨ r.jobId = job.jobId := by
    intro r hr
    rcases List.mem_append.mp hr with hr | hr
    · exact .inl hr
    · rw [List.mem_singleton.mp hr]
      exact .inr hsame
  constructor
  · exact fun id hid => Nat.lt_succ_of_lt (h.spent_below id hid)
  · intro j hj htr hcron r hr r' hr' hrj hrj'
    -- a one-shot job gets its only run at its creation
    have hfirst : j.jobId = job.jobId → ∀ x ∈ L.tables.runs, x.jobId ≠ j.jobId := by
      intro heq
      rw [hk.job_eq hj hjob heq] at htr hcron ⊢
      cases hcause with
      | initial _ hfirst => exact hfirst
      | successor hsome => rw [hcron] at hsome; cases hsome
      | upstream _ _ _ _ _ hsome => rw [htr] at hsome; cases hsome
    rcases List.mem_append.mp hr with hr₁ | hr₁ <;> rcases List.mem_append.mp hr' with hr₂ | hr₂
    · exact h.single j hj htr hcron r hr₁ r' hr₂ hrj hrj'
    · rw [List.mem_singleton.mp hr₂] at hrj'
      exact absurd hrj (hfirst (hrj'.symm.trans hsame) r hr₁)
    · rw [List.mem_singleton.mp hr₁] at hrj
      exact absurd hrj' (hfirst (hrj.symm.trans hsame) r' hr₂)
    · rw [List.mem_singleton.mp hr₁, List.mem_singleton.mp hr₂]
  · rintro j hj hs ⟨r, hr, hrj, hexec⟩
    rcases hmem hr with hr | heq
    · exact h.completed_idle j hj hs ⟨r, hr, hrj, hexec⟩
    · rw [hk.job_eq hj hjob (hrj.symm.trans heq), hactive] at hs
      cases hs
  · exact h.completed_trigger
  · intro j hj hs hcron hidle hdue
    have hidle' : ¬L.tables.Executing j.jobId := fun ⟨r, hr, hrest⟩ =>
      hidle ⟨r, List.mem_append_left _ hr, hrest⟩
    exact (h.waiting j hj hs hcron hidle' hdue).mono (fun _ _ ha => ha) (fun _ hc => hc)
      fun _ hu => unspent_log (L := L.addRun start (.new entity runAt .pending wait)) hu

/-- A job has one run after a run is updated if it had one before. -/
theorem single_setRun (h : L.Resident) (hk : Coherent L.tables L.seq) {r : JobRun}
    {set : JobRun → JobRun} (hr : r ∈ L.tables.runs) (hset : r.SameRun (set r)) {j : Job}
    (hj : j ∈ L.tables.jobs) (htr : j.triggerOnJobId = none) (hcron : j.cronExpr = none)
    {x y : JobRun} (hx : x ∈ (L.tables.setRun r.runId set).runs)
    (hy : y ∈ (L.tables.setRun r.runId set).runs) (hxj : x.jobId = j.jobId)
    (hyj : y.jobId = j.jobId) : x.runId = y.runId := by
  have hback : ∀ z ∈ (L.tables.setRun r.runId set).runs, ∃ z₀ ∈ L.tables.runs,
      z₀.runId = z.runId ∧ z₀.jobId = z.jobId := by
    intro z hz
    obtain ⟨z₀, hz₀, rfl⟩ := Tables.mem_setRun.mp hz
    split
    · next heq =>
      rw [hk.run_eq hz₀ hr heq]
      exact ⟨r, hr, hset.runId.symm, hset.jobId.symm⟩
    · exact ⟨z₀, hz₀, rfl, rfl⟩
  obtain ⟨x₀, hx₀, hxid, hxjob⟩ := hback x hx
  obtain ⟨y₀, hy₀, hyid, hyjob⟩ := hback y hy
  rw [← hxid, ← hyid]
  exact h.single j hj htr hcron x₀ hx₀ y₀ hy₀ (hxjob.trans hxj) (hyjob.trans hyj)

theorem move (h : L.Resident) (hk : Coherent L.tables L.seq) {start : Int} {r : JobRun}
    {set : JobRun → JobRun} {type : EventType} {data : Option EventData} (hr : r ∈ L.tables.runs)
    (hset : r.SameRun (set r)) (htrans : Transition r.status (set r).status type) :
    ((L.setRun r.runId set).log start
      (.new r.runId r.jobId type (some r.status) (some (set r).status) data)).Resident := by
  constructor
  · exact fun id hid => Nat.lt_succ_of_lt (h.spent_below id hid)
  · intro j hj htr hcron x hx y hy
    exact h.single_setRun hk hr hset hj htr hcron hx hy
  · exact fun j hj hs hex =>
      h.completed_idle j hj hs (Tables.executing_setRun hk hr hset htrans.executing hex)
  · exact h.completed_trigger
  · intro j hj hs hcron hidle hdue
    by_cases hex : L.tables.Executing j.jobId
    · -- the run that moved was the last load of the job, and its terminal event is new
      obtain ⟨x, hx, hxj, hxe⟩ := hex
      have hxr : x.runId = r.runId := by
        by_contra hne
        exact hidle ⟨x, mem_setRun_of_ne hx hne, hxj, hxe⟩
      have hx_eq := hk.run_eq hx hr hxr
      subst hx_eq
      have hend : (set x).status.terminal = true := by
        by_contra hlive
        refine hidle ⟨set x, Tables.mem_setRun.mpr ⟨x, hx, if_pos rfl⟩, hset.jobId.trans hxj, ?_⟩
        rw [RunStatus.executing_eq_not_terminal]
        simpa using hlive
      refine .inr (.inl ⟨_, List.mem_append_right _ (List.mem_singleton_self _), hxj, ?_, ?_⟩)
      · simp [RunEvent.unprocessed, storedEvent, RunEvent.new, htrans.terminal_iff, hend,
          RunEvent.hasKey]
      · exact fun hsp => lt_irrefl _ (h.spent_below _ hsp)
    · exact (h.waiting j hj hs hcron hex hdue).mono (fun _ _ ha => ha) (fun _ hc => hc)
        fun _ hu => unspent_log (L := L.setRun r.runId set) hu

theorem touch (h : L.Resident) (hk : Coherent L.tables L.seq) {r : JobRun}
    {set : JobRun → JobRun} (hr : r ∈ L.tables.runs) (hset : r.SameRun (set r))
    (hstatus : (set r).status = r.status) : (L.setRun r.runId set).Resident := by
  have hexec : ∀ id, (L.tables.setRun r.runId set).Executing id ↔ L.tables.Executing id := by
    intro id
    constructor
    · rintro ⟨x', hx', hid, hs⟩
      obtain ⟨x, hx, rfl⟩ := Tables.mem_setRun.mp hx'
      split at hid
      · next heq =>
        rw [if_pos heq] at hs
        rw [hk.run_eq hx hr heq] at hid hs
        exact ⟨r, hr, hset.jobId ▸ hid, hstatus ▸ hs⟩
      · next hne =>
        rw [if_neg hne] at hs
        exact ⟨x, hx, hid, hs⟩
    · rintro ⟨x, hx, hid, hs⟩
      by_cases heq : x.runId = r.runId
      · rw [hk.run_eq hx hr heq] at hid hs
        exact ⟨set r, Tables.mem_setRun.mpr ⟨r, hr, if_pos rfl⟩, hset.jobId.trans hid,
          hstatus ▸ hs⟩
      · exact ⟨x, mem_setRun_of_ne hx heq, hid, hs⟩
  constructor
  · exact h.spent_below
  · intro j hj htr hcron x hx y hy
    exact h.single_setRun hk hr hset hj htr hcron hx hy
  · exact fun j hj hs hex => h.completed_idle j hj hs ((hexec _).mp hex)
  · exact h.completed_trigger
  · intro j hj hs hcron hidle hdue
    exact h.waiting j hj hs hcron (fun hex => hidle ((hexec _).mpr hex)) hdue

theorem log (h : L.Resident) (start : Int) (row : RunEvent) : (L.log start row).Resident where
  spent_below id hid := Nat.lt_succ_of_lt (h.spent_below id hid)
  single := h.single
  completed_idle := h.completed_idle
  completed_trigger := h.completed_trigger
  waiting j hj hs hcron hidle hdue :=
    (h.waiting j hj hs hcron hidle hdue).mono (fun _ _ ha => ha) (fun _ hc => hc) fun _ =>
      unspent_log

theorem mark (h : L.Resident) (hk : Coherent L.tables L.seq) {e : RunEvent}
    (he : e ∈ L.tables.events) : (L.mark e).Resident := by
  refine ⟨?_, h.single, h.completed_idle, h.completed_trigger, ?_⟩
  · rintro id (hid | rfl)
    · exact h.spent_below id hid
    · exact hk.events_below e he
  · intro j hj hs hcron hidle hdue
    simp only [Ledger.mark, not_or] at hdue
    obtain ⟨hdue, hne, hchild⟩ := hdue
    -- only an event of another job counts, and that is not the one taken up
    have hkeep : ∀ id, id ≠ e.jobId → L.Unspent id → (L.mark e).Unspent id := by
      rintro id hid ⟨x, hx, rfl, hnew, hsp⟩
      refine ⟨x, hx, rfl, hnew, ?_⟩
      rintro (hsp' | heq)
      · exact hsp hsp'
      · exact hid (by rw [hk.event_eq hx he heq])
    rcases h.waiting j hj hs hcron hidle hdue with hp | hu | ⟨p, hp, hc, hu⟩
    · exact .inl hp
    · exact .inr (.inl (hkeep _ hne hu))
    · refine .inr (.inr ⟨p, hp, hc, hkeep p ?_ hu⟩)
      rintro rfl
      refine hchild ⟨⟨j, hj, rfl, hp, hs⟩, ?_⟩
      rintro ⟨i, hi, hid, his⟩
      obtain ⟨i', hi', hid', his'⟩ := hc
      rw [hk.job_eq hi hi' (hid.trans hid'.symm), his'] at his
      cases his

theorem stamp (h : L.Resident) {id : Nat} (hspent : L.spent id) (by_ : List (String × Int)) :
    (L.stamp id by_).Resident := by
  refine ⟨fun x hx => h.spent_below x hx.1, h.single, h.completed_idle, h.completed_trigger, ?_⟩
  intro j hj hs hcron hidle hdue
  refine (h.waiting j hj hs hcron hidle hdue).mono (fun _ _ ha => ha) (fun _ hc => hc) ?_
  rintro _ ⟨e, he, rfl, hnew, hsp⟩
  refine ⟨e, Tables.mem_setEvent.mpr ⟨e, he, if_neg ?_⟩, rfl, hnew, fun hx => hsp hx.1⟩
  rintro rfl
  exact hsp hspent

/-- A job leaves `active`: it has no load if it is completed, and every job that it triggers owes a
settle check or has a terminal event of it to wait for. -/
theorem leave (h : L.Resident) (hk : Coherent L.tables L.seq) {j₀ : Job} (hj₀ : j₀ ∈ L.tables.jobs)
    (hactive : j₀.state = .active) {set : Job → Job} {due : Nat → Prop}
    (hset : ∀ j, (set j).jobId = j.jobId ∧ (set j).triggerOnJobId = j.triggerOnJobId ∧
      (set j).cronExpr = j.cronExpr ∧ (set j).state ≠ .active)
    (hidle : (set j₀).state = .completed → ¬L.tables.Executing j₀.jobId)
    (htrigger : (set j₀).state = .completed →
      ∀ p, j₀.triggerOnJobId = some p → ¬L.tables.Active p)
    (hdue : ∀ id, id ≠ j₀.jobId → L.due id → due id)
    (hchild : ∀ id, L.tables.Child j₀.jobId id → due id ∨
      ((set j₀).state = .completed ∧ L.Unspent j₀.jobId)) :
    ({ L.setJob j₀.jobId set with due := due } : Ledger).Resident := by
  have hrow : ∀ j ∈ (L.tables.setJob j₀.jobId set).jobs,
      (j ∈ L.tables.jobs ∧ j.jobId ≠ j₀.jobId) ∨ j = set j₀ := by
    intro j hj
    obtain ⟨i, hi, rfl⟩ := Tables.mem_setJob.mp hj
    split
    · next heq => exact .inr (by rw [hk.job_eq hi hj₀ heq])
    · next hne => exact .inl ⟨hi, hne⟩
  have hkeep : ∀ j ∈ L.tables.jobs, j.jobId ≠ j₀.jobId →
      j ∈ (L.tables.setJob j₀.jobId set).jobs :=
    fun j hj hne => Tables.mem_setJob.mpr ⟨j, hj, if_neg hne⟩
  have hactive' : ∀ p, (L.tables.setJob j₀.jobId set).Active p → L.tables.Active p := by
    rintro p ⟨j, hj, hid, hs⟩
    rcases hrow j hj with ⟨hj, -⟩ | rfl
    · exact ⟨j, hj, hid, hs⟩
    · exact absurd hs (hset j₀).2.2.2
  constructor
  · exact h.spent_below
  · intro j hj htr hcron
    rcases hrow j hj with ⟨hj, -⟩ | rfl
    · exact h.single j hj htr hcron
    · rw [(hset j₀).1]
      exact h.single j₀ hj₀ ((hset j₀).2.1 ▸ htr) ((hset j₀).2.2.1 ▸ hcron)
  · intro j hj hs
    rcases hrow j hj with ⟨hj, -⟩ | rfl
    · exact h.completed_idle j hj hs
    · rw [(hset j₀).1]
      exact hidle hs
  · intro j hj hs p hp ha
    rcases hrow j hj with ⟨hj, -⟩ | rfl
    · exact h.completed_trigger j hj hs p hp (hactive' p ha)
    · exact htrigger hs p ((hset j₀).2.1 ▸ hp) (hactive' p ha)
  · intro j hj hs hcron hid hd
    rcases hrow j hj with ⟨hj, hne⟩ | rfl
    swap
    · exact absurd hs (hset j₀).2.2.2
    rcases h.waiting j hj hs hcron hid fun hd' => hd (hdue _ hne hd') with
      ⟨p, hp, i, hi, rfl, his⟩ | hu | ⟨p, hp, ⟨i, hi, rfl, his⟩, hu⟩
    · by_cases heq : i.jobId = j₀.jobId
      · rw [heq] at hp
        obtain hd' | ⟨hc, hu⟩ := hchild j.jobId ⟨j, hj, rfl, hp⟩
        · exact absurd hd' hd
        · refine .inr (.inr ⟨j₀.jobId, hp, ⟨set j₀, ?_, (hset j₀).1, hc⟩, hu⟩)
          exact Tables.mem_setJob.mpr ⟨j₀, hj₀, if_pos rfl⟩
      · exact .inl ⟨i.jobId, hp, i, hkeep i hi heq, rfl, his⟩
    · exact .inr (.inl hu)
    · refine .inr (.inr ⟨i.jobId, hp, ⟨i, hkeep i hi fun heq => ?_, rfl, his⟩, hu⟩)
      rw [hk.job_eq hi hj₀ heq, hactive] at his
      cases his

/-- Every change keeps the invariant. -/
theorem change (h : L.Resident) (hk : Coherent L.tables L.seq) (hc : Change m libs L L') :
    L'.Resident := by
  cases hc with
  | burn hle =>
    exact ⟨fun id hid => (h.spent_below id hid).trans_le hle.2.2, h.single, h.completed_idle,
      h.completed_trigger, h.waiting⟩
  | addJob hstate hlife hparent => exact h.addJob hk hstate
  | spawn hjob hsame hactive hidle hclash hcause => exact h.spawn hk hjob hsame hactive hcause _
  | move hdue hr hset htrans hends => exact h.move hk hr hset htrans
  | touch hr hset hstatus => exact h.touch hk hr hset hstatus
  | skip he hterminal hnew hspent hjob hchild hskip => exact h.log _ _
  | mark he hterminal hnew hfresh => exact h.mark hk he
  | stamp hspent hkey => exact h.stamp hspent _
  | @settle id now hdue hex =>
    obtain ⟨j, hj, rfl, hs, hcron, hidle, hpar⟩ := hex
    exact h.leave hk hj hs (fun _ => ⟨rfl, rfl, rfl, by simp [Job.settle]⟩) (fun _ => hidle)
      (fun _ => hpar) (fun d hne hd => .inl ⟨hd, hne⟩)
      fun d hd => .inl (.inr (hd.setJob fun _ => ⟨rfl, rfl⟩))
  | @clear id hex =>
    refine ⟨h.spent_below, h.single, h.completed_idle, h.completed_trigger, ?_⟩
    intro j hj hs hcron hidle hdue
    by_cases hid : j.jobId = id
    · by_contra hno
      refine hex ⟨j, hj, hid, hs, hcron, hid ▸ hidle, fun p hp ha => hno (.inl ⟨p, hp, ha⟩)⟩
    · exact h.waiting j hj hs hcron hidle fun hd => hdue ⟨hd, hid⟩
  | @retire now j hdue hj hactive htype hfree hrun hevent =>
    have hcron : j.cronExpr = none := by
      simpa using mt (hk.lifecycle j hj).recurring.mpr htype
    refine h.leave hk hj hactive (fun _ => ⟨rfl, rfl, rfl, by simp [Job.settle]⟩) ?_
      (fun _ p hp => by rw [hfree] at hp; cases hp) (fun d _ hd => hd)
      fun d _ => .inr ⟨rfl, hevent⟩
    -- its only run is the one that has ended
    rintro - ⟨x, hx, hxj, hxe⟩
    obtain ⟨r, hr, hrj, hrt⟩ := hrun
    rw [hk.run_eq hx hr (h.single j hj hfree hcron x hx r hr hxj hrj),
      RunStatus.executing_eq_not_terminal, hrt] at hxe
    cases hxe
  | @cancel now j hmode hj hactive =>
    exact h.leave hk hj hactive (fun _ => ⟨rfl, rfl, rfl, by simp [Job.cancel]⟩)
      (by simp [Job.cancel]) (by simp [Job.cancel]) (fun d _ hd => .inl hd)
      fun d hd => .inl (.inr (hd.setJob fun _ => ⟨rfl, rfl⟩))

end Ledger.Resident

namespace Sys

/-- In every reachable state, with transactions at once and Sweep C on crashed workers' runs only: a
completed job has no executing run, and an active job with no schedule and no executing run has an
active trigger, or an unprocessed terminal event of it or of its trigger is in the outbox.  Once all
terminal events are processed, the jobs that are not cancelled are active exactly as long as they
have something to run. -/
theorem state_tracks_load {cfg : Config} {σ : Sys} (hreach : Reach cfg AtomicOk σ) :
    (∀ j ∈ σ.tables.jobs, j.state = .completed → ¬σ.tables.Executing j.jobId) ∧
    (∀ j ∈ σ.tables.jobs, j.state = .active → j.cronExpr = none → ¬σ.tables.Executing j.jobId →
      (∃ p, j.triggerOnJobId = some p ∧ σ.tables.Active p) ∨ σ.tables.Unprocessed j.jobId ∨
        ∃ p, j.triggerOnJobId = some p ∧ σ.tables.Unprocessed p) ∧
    ((∀ e ∈ σ.tables.events, e.unprocessed = false) →
      ∀ j ∈ σ.tables.jobs, j.state ≠ .cancelled →
        (j.state = .active ↔ j.jobType = .recurring ∨ σ.tables.Executing j.jobId ∨
          ∃ p, j.triggerOnJobId = some p ∧ σ.tables.Active p)) := by
  obtain ⟨hbase, hres⟩ := hreach.changes (fun _ _ h => h) (fun _ => True) (fun _ _ _ _ _ => trivial)
    Ledger.Resident (by constructor <;> simp [Sys.ledger])
    (fun _ L L' _ hk hI hc => hI.change hk hc)
  have hwait : ∀ j ∈ σ.tables.jobs, j.state = .active → j.cronExpr = none →
      ¬σ.tables.Executing j.jobId → (∃ p, j.triggerOnJobId = some p ∧ σ.tables.Active p) ∨
        σ.tables.Unprocessed j.jobId ∨ ∃ p, j.triggerOnJobId = some p ∧ σ.tables.Unprocessed p := by
    intro j hj hs hcron hidle
    rcases hres.waiting j hj hs hcron hidle id with hp | ⟨e, he, hid, hnew, -⟩ |
      ⟨p, hp, -, e, he, hid, hnew, -⟩
    · exact .inl hp
    · exact .inr (.inl ⟨e, he, hid, hnew⟩)
    · exact .inr (.inr ⟨p, hp, e, he, hid, hnew⟩)
  refine ⟨hres.completed_idle, hwait, fun hprocessed j hj hnc => ?_⟩
  have hnone : ∀ id, ¬σ.tables.Unprocessed id := by
    rintro id ⟨e, he, -, hnew⟩
    rw [hprocessed e he] at hnew
    cases hnew
  have hlife := hbase.coherent.lifecycle j hj
  constructor
  · intro hs
    by_cases hcron : j.cronExpr = none
    · by_cases hidle : σ.tables.Executing j.jobId
      · exact .inr (.inl hidle)
      · rcases hwait j hj hs hcron hidle with hp | hu | ⟨p, -, hu⟩
        · exact .inr (.inr hp)
        · exact absurd hu (hnone _)
        · exact absurd hu (hnone p)
    · exact .inl (hlife.recurring.mpr (Option.isSome_iff_ne_none.mpr hcron))
  · intro hload
    cases hs : j.state with
    | active => rfl
    | cancelled => exact absurd hs hnc
    | completed =>
      rcases hload with hrec | hexec | ⟨p, hp, ha⟩
      · exact absurd hs (hlife.schedule (hlife.recurring.mp hrec))
      · exact absurd hexec (hres.completed_idle j hj hs)
      · exact absurd ha (hres.completed_trigger j hj hs p hp)

/-- A one-shot job with a chained one: created, run, and half way through its continuation. -/
def chainRun : List Act :=
  [.at 0 (.create 0 (.echo none none none)),
    .at 1 (.create 1 (.echo none (some 1) none)),
    .at 2 (.publish 2 10),
    .at 3 (.claim 3 1 1),
    .at 4 (.finish 4 1 1 .success)]

theorem chainRun_tracks_load : ∃ σ, runActs .minutely {} chainRun = some σ ∧
    σ.tables.jobs.map (·.state) = [.completed, .active] ∧
    ∀ j ∈ σ.tables.jobs, j.state = .completed → ¬σ.tables.Executing j.jobId := by
  have hsome : (runActs .minutely {} chainRun).isSome = true := by decide +kernel
  obtain ⟨σ, hσ⟩ := Option.isSome_iff_exists.mp hsome
  refine ⟨σ, hσ, ?_, (state_tracks_load (Reach.init.runActs ?_ hσ)).1⟩
  · have : (runActs .minutely {} chainRun).map (fun σ => σ.tables.jobs.map (·.state)) =
        some [.completed, .active] := by decide +kernel
    rw [hσ] at this
    exact Option.some.inj this
  · intro τ a ha
    simp only [chainRun, List.mem_cons, List.not_mem_nil, or_false] at ha
    rcases ha with rfl | rfl | rfl | rfl | rfl <;> trivial

end Sys

end TaskScheduler
