import TaskScheduler.Ledger.Change

/-! Settle checks are changes of the ledger: updates by key, the queries of a check, and the cascade
along the chains. -/

namespace TaskScheduler

open Lib

/-- The ledger at a view. -/
def View.ledger (v : View) (due spent : Nat → Prop) : Ledger := ⟨v.tables, v.seq, due, spent⟩

/-! ### Updates by key -/

/-- An update whose `WHERE` picks the rows with key `id`. -/
theorem updateRuns_eq {t : Tables} {p : JobRun → Bool} {set : JobRun → JobRun} {id : Nat}
    (h : ∀ r ∈ t.runs, r.runId ∈ (t.runs.filter p).map (·.runId) ↔ r.runId = id) :
    (Write.updateRuns ((t.runs.filter p).map (·.runId)) set).apply t = t.setRun id set := by
  simp only [Write.apply, Tables.setRun, Tables.mk.injEq, true_and, and_true]
  refine List.map_congr_left fun r hr => ?_
  simp only [h r hr]

theorem updateRuns_byKey (t : Tables) (set : JobRun → JobRun) (id : Nat) :
    (Write.updateRuns ((t.runs.filter fun r => r.runId == id).map (·.runId)) set).apply t =
      t.setRun id set := by
  refine updateRuns_eq fun r hr => ?_
  simp only [List.mem_map, List.mem_filter, beq_iff_eq]
  constructor
  · rintro ⟨r', ⟨-, hid⟩, heq⟩
    rw [← heq, hid]
  · exact fun hid => ⟨r, ⟨hr, hid⟩, rfl⟩

theorem updateEvents_byKey (t : Tables) (set : RunEvent → RunEvent) (id : Nat) :
    (Write.updateEvents ((t.events.filter fun e => e.eventId == id).map (·.eventId)) set).apply t =
      t.setEvent id set := by
  simp only [Write.apply, Tables.setEvent, Tables.mk.injEq, true_and]
  refine List.map_congr_left fun e he => if_congr ?_ rfl rfl
  simp only [List.mem_map, List.mem_filter, beq_iff_eq]
  constructor
  · rintro ⟨e', ⟨-, hid⟩, heq⟩
    rw [← heq, hid]
  · exact fun hid => ⟨e, ⟨he, hid⟩, rfl⟩

/-- An update of one job whose `WHERE` also asks for its state. -/
theorem updateJobs_byKey {t : Tables} {j : Job} (hj : j ∈ t.jobs) {p : Job → Bool}
    (hp : p j = true) (hid : ∀ i, p i = true → i.jobId = j.jobId) (set : Job → Job) :
    (Write.updateJobs ((t.jobs.filter p).map (·.jobId)) set).apply t = t.setJob j.jobId set := by
  simp only [Write.apply, Tables.setJob, Tables.mk.injEq, and_true]
  refine List.map_congr_left fun i hi => if_congr ?_ rfl rfl
  simp only [List.mem_map, List.mem_filter]
  constructor
  · rintro ⟨i', ⟨-, hi'⟩, heq⟩
    rw [← heq, hid i' hi']
  · exact fun heq => ⟨j, ⟨hj, hp⟩, heq.symm⟩

/-! ### Queries -/

section Queries

variable {older : Job → Job → Prop} {pick : Nat → Bool} {start : Int} {E : Err → View → Prop}
  {v : View}

/-- A load by key answers no row, or an entity for the row. -/
theorem loaded_head {older : Job → Job → Prop} {jobs rows : List Job} {p : Job → Bool}
    (h : List.Forall₂ older rows (jobs.filter p)) :
    (rows.head? = none ∧ ∀ j ∈ jobs, p j = false) ∨
      ∃ c, rows.head? = some c ∧ ∃ r ∈ jobs, p r = true ∧ older c r := by
  cases hf : jobs.filter p with
  | nil =>
    rw [hf, List.forall₂_nil_right_iff] at h
    refine .inl ⟨by rw [h]; rfl, fun j hj => ?_⟩
    simpa using List.filter_eq_nil_iff.mp hf j hj
  | cons r rs =>
    rw [hf, List.forall₂_cons_right_iff] at h
    obtain ⟨c, cs, hcr, -, rfl⟩ := h
    have hr : r ∈ jobs.filter p := by rw [hf]; exact List.mem_cons_self
    rw [List.mem_filter] at hr
    exact .inr ⟨c, rfl, r, hr.1, hr.2, hcr⟩

theorem wp_hasExecutingRun {Q : Bool → View → Prop} {jobId : Nat}
    (h : ∀ b, (b = true ↔ v.tables.Executing jobId) → Q b v) :
    (hasExecutingRun jobId).wp (rowAccount older pick start) E Q v := by
  simp only [hasExecutingRun, Program.wp_bind, wp_selectRuns, Program.pure_eq, Program.wp_ret]
  refine h _ ?_
  simp only [Bool.not_eq_true', List.isEmpty_eq_false_iff_exists_mem, List.mem_filter,
    Bool.and_eq_true, beq_iff_eq, Tables.Executing]

theorem wp_triggerParentActive {Q : Bool → View → Prop} {seq : Seq} (hk : Coherent v.tables seq)
    {job : Job} (h : ∀ b, (b = true ↔ ∃ p, job.triggerOnJobId = some p ∧ v.tables.Active p) → Q b v) :
    (triggerParentActive job).wp (rowAccount older pick start) E Q v := by
  unfold triggerParentActive
  cases hp : job.triggerOnJobId with
  | none => exact h false (by simp [hp])
  | some parent =>
    simp only [Program.wp_bind, wp_selectJobs, Program.pure_eq, Program.wp_ret]
    refine h _ ?_
    simp only [hp, Option.some.injEq, exists_eq_left', Tables.Active]
    constructor
    · intro hb
      obtain ⟨p, hp', hs⟩ := (Option.any_eq_true _ _).mp hb
      have hmem := List.mem_of_head? hp'
      rw [List.mem_filter, beq_iff_eq] at hmem
      exact ⟨p, hmem.1, hmem.2, by simpa using hs⟩
    · rintro ⟨j, hj, hid, hs⟩
      cases hf : v.tables.jobs.filter fun j => j.jobId == parent with
      | nil => simpa [hid] using List.filter_eq_nil_iff.mp hf j hj
      | cons r rs =>
        have hr : r ∈ v.tables.jobs.filter fun j => j.jobId == parent := by
          rw [hf]; exact List.mem_cons_self
        rw [List.mem_filter, beq_iff_eq] at hr
        simp [hk.job_eq hr.1 hj (hr.2.trans hid.symm), hs]

end Queries

/-! ### Settle checks -/

/-- `j'` is `j`, or `j` settled. -/
def Job.SettledTo (j j' : Job) : Prop := j' = j ∨ (j.state = .active ∧ ∃ now, j' = j.settle now)

theorem Job.SettledTo.trans {a b c : Job} (h : a.SettledTo b) (h' : b.SettledTo c) :
    a.SettledTo c := by
  rcases h' with rfl | ⟨hb, now, rfl⟩
  · exact h
  · rcases h with rfl | ⟨ha, now', rfl⟩
    · exact .inr ⟨hb, now, rfl⟩
    · cases hb

/-- Some active jobs have been settled, and nothing else has changed. -/
structure Tables.Settled (t t' : Tables) : Prop where
  jobs : List.Forall₂ Job.SettledTo t.jobs t'.jobs
  runs : t'.runs = t.runs
  events : t'.events = t.events

namespace Tables.Settled

variable {t t' t'' : Tables}

theorem refl (t : Tables) : t.Settled t := ⟨List.forall₂_same.mpr fun _ _ => .inl rfl, rfl, rfl⟩

theorem trans (h : t.Settled t') (h' : t'.Settled t'') : t.Settled t'' where
  jobs := by
    have hcomp := (List.forall₂_iff_get).mp h.jobs
    have hcomp' := (List.forall₂_iff_get).mp h'.jobs
    refine List.forall₂_iff_get.mpr ⟨hcomp.1.trans hcomp'.1, fun i hi hi'' => ?_⟩
    have hi' : i < t'.jobs.length := hcomp.1 ▸ hi
    exact (hcomp.2 i hi hi').trans (hcomp'.2 i hi' hi'')
  runs := h'.runs.trans h.runs
  events := h'.events.trans h.events

theorem setJob {id : Nat} {now : Int} (h : ∀ j ∈ t.jobs, j.jobId = id → j.state = .active) :
    t.Settled (t.setJob id (Job.settle now)) := by
  refine ⟨?_, rfl, rfl⟩
  rw [Tables.setJob, List.forall₂_map_right_iff, List.forall₂_same]
  intro j hj
  split
  · exact .inr ⟨h j hj ‹_›, now, rfl⟩
  · exact .inl rfl

/-- A job after the settles was a job before them. -/
theorem mem (h : t.Settled t') {j' : Job} (hj' : j' ∈ t'.jobs) : ∃ j ∈ t.jobs, j.SettledTo j' := by
  obtain ⟨i, hi, rfl⟩ := List.mem_iff_getElem.mp hj'
  have hf := List.forall₂_iff_get.mp h.jobs
  have hi' : i < t.jobs.length := hf.1 ▸ hi
  exact ⟨t.jobs.get ⟨i, hi'⟩, List.get_mem _ _, hf.2 i hi' hi⟩

theorem mem_of_mem (h : t.Settled t') {j : Job} (hj : j ∈ t.jobs) :
    ∃ j' ∈ t'.jobs, j.SettledTo j' := by
  obtain ⟨i, hi, rfl⟩ := List.mem_iff_getElem.mp hj
  have hf := List.forall₂_iff_get.mp h.jobs
  have hi' : i < t'.jobs.length := hf.1 ▸ hi
  exact ⟨t'.jobs.get ⟨i, hi'⟩, List.get_mem _ _, hf.2 i hi hi'⟩

/-- A job that is active after the settles is untouched by them. -/
theorem active_mem (h : t.Settled t') {j : Job} (hj : j ∈ t'.jobs) (hs : j.state = .active) :
    j ∈ t.jobs := by
  obtain ⟨j₀, hj₀, rfl | ⟨-, now, rfl⟩⟩ := h.mem hj
  · exact hj₀
  · cases hs

theorem active (h : t.Settled t') {id : Nat} (ha : t'.Active id) : t.Active id := by
  obtain ⟨j, hj, hid, hs⟩ := ha
  exact ⟨j, h.active_mem hj hs, hid, hs⟩

theorem executing_iff (h : t.Settled t') {id : Nat} : t'.Executing id ↔ t.Executing id := by
  simp only [Executing, h.runs]

end Tables.Settled

/-- A settled job is exhausted no more; other jobs are only if they were, or if it triggers them. -/
theorem exhausted_setJob {t : Tables} {id d : Nat} {now : Int}
    (h : (t.setJob id (Job.settle now)).Exhausted d) :
    d ≠ id ∧ (t.Exhausted d ∨ t.Child id d) := by
  obtain ⟨j', hj', hid, hs, hcron, hidle, hpar⟩ := h
  obtain ⟨j, hj, rfl⟩ := Tables.mem_setJob.mp hj'
  split at hid
  · next heq =>
    rw [if_pos heq] at hs
    cases hs
  · next hne =>
    simp only [if_neg hne] at hs hcron hpar
    subst hid
    refine ⟨hne, ?_⟩
    by_cases hc : j.triggerOnJobId = some id
    · exact .inr ⟨j, hj, rfl, hc⟩
    · refine .inl ⟨j, hj, rfl, hs, hcron, hidle, fun p hp hpa => hpar p hp ?_⟩
      obtain ⟨i, hi, rfl, his⟩ := hpa
      refine ⟨i, Tables.mem_setJob.mpr ⟨i, hi, if_neg ?_⟩, rfl, his⟩
      rintro rfl
      exact hc hp

section Changes

variable {m : Mode} {libs : Libs} {L₀ : Ledger} {spent : Nat → Prop} {older : Job → Job → Prop}
  {pick : Nat → Bool} {start : Int}

/-- What settle checks on the jobs of `ids` lead to: those owe none any more, and no other job comes
to need one without owing it. -/
structure Checked (m : Mode) (libs : Libs) (L₀ : Ledger) (spent : Nat → Prop) (v : View)
    (due ids : Nat → Prop) (v' : View) (due' : Nat → Prop) : Prop where
  path : Changes m libs L₀ (v'.ledger due' spent)
  owed : ∀ d, due' d → due d ∧ ¬ids d
  sound : ∀ d, due d ∨ ¬v.tables.Exhausted d → due' d ∨ ¬v'.tables.Exhausted d
  settled : v.tables.Settled v'.tables
  unchanged : (∀ d, ids d → ¬v.tables.Exhausted d) → v'.tables = v.tables

/-- Settle checks one after the other. -/
theorem Checked.trans {v v₁ v₂ : View} {due due₁ due₂ ids ids' : Nat → Prop}
    (h₁ : Checked m libs L₀ spent v due ids v₁ due₁)
    (h₂ : Checked m libs L₀ spent v₁ due₁ ids' v₂ due₂) :
    Checked m libs L₀ spent v due (fun d => ids d ∨ ids' d) v₂ due₂ where
  path := h₂.path
  owed d hd := by
    obtain ⟨hd₁, hnot'⟩ := h₂.owed d hd
    obtain ⟨hd₀, hnot⟩ := h₁.owed d hd₁
    exact ⟨hd₀, not_or.mpr ⟨hnot, hnot'⟩⟩
  sound d hd := h₂.sound d (h₁.sound d hd)
  settled := h₁.settled.trans h₂.settled
  unchanged hids := by
    have heq := h₁.unchanged fun d hd => hids d (.inl hd)
    rw [h₂.unchanged fun d hd => heq ▸ hids d (.inr hd), heq]

/-- What is asked of a settle check: called on a job that owes one or needs none, it checks it. -/
def Checks (m : Mode) (libs : Libs) (L₀ : Ledger) (spent : Nat → Prop)
    (acc : Account Stmt Reply View) (check : Nat → Txn Bool) : Prop :=
  ∀ id v due, Changes m libs L₀ (v.ledger due spent) → (due id ∨ ¬v.tables.Exhausted id) →
    (check id).wp acc (fun _ _ => True)
      (fun _ v' => ∃ due', Checked m libs L₀ spent v due (· = id) v' due') v

/-- A loop of settle checks. -/
theorem Checks.forM {acc : Account Stmt Reply View} {check : Nat → Txn Bool}
    (hcheck : Checks m libs L₀ spent acc check) {α : Type} (key : α → Nat) (l : List α) (v : View)
    (due : Nat → Prop) (hpath : Changes m libs L₀ (v.ledger due spent))
    (hl : ∀ a ∈ l, due (key a) ∨ ¬v.tables.Exhausted (key a)) :
    (l.forM fun a => do let _ ← check (key a)).wp acc (fun _ _ => True)
      (fun _ v' => ∃ due',
        Checked m libs L₀ spent v due (fun d => ∃ a ∈ l, key a = d) v' due') v := by
  induction l generalizing v due with
  | nil =>
    exact ⟨due, hpath, fun d hd => ⟨hd, by simp⟩, fun d hd => hd, .refl _, fun _ => rfl⟩
  | cons a l ih =>
    rw [Program.forM_cons, Program.wp_bind, Program.wp_bind]
    refine Program.wp_mono (hcheck (key a) v due hpath (hl a List.mem_cons_self)) ?_
    rintro _ v₁ ⟨due₁, h₁⟩
    simp only [Program.pure_eq, Program.wp_ret]
    refine Program.wp_mono (ih v₁ due₁ h₁.path fun b hb =>
      h₁.sound (key b) (hl b (List.mem_cons_of_mem _ hb))) ?_
    rintro _ v₂ ⟨due₂, h₂⟩
    have hids : (fun d => ∃ b ∈ a :: l, key b = d) =
        fun d => d = key a ∨ ∃ b ∈ l, key b = d := by
      funext d
      simp [eq_comm]
    rw [hids]
    exact ⟨due₂, h₁.trans h₂⟩

/-- `_settle_downstreams` checks every downstream of a job. -/
theorem Checks.downstreams {check : Nat → Txn Bool}
    (hcheck : Checks m libs L₀ spent (rowAccount older pick start) check) (parent : Nat) (v : View)
    (due : Nat → Prop) (hpath : Changes m libs L₀ (v.ledger due spent))
    (hdue : ∀ d, v.tables.Child parent d → due d) :
    (settleDownstreams check parent).wp (rowAccount older pick start) (fun _ _ => True)
      (fun _ v' => ∃ due', Checked m libs L₀ spent v due (v.tables.Child parent) v' due') v := by
  unfold settleDownstreams
  simp only [Program.wp_bind, wp_selectJobs]
  have hids : (fun d => ∃ a ∈ v.tables.jobs.filter (fun j => j.triggerOnJobId == some parent),
      a.jobId = d) = v.tables.Child parent := by
    funext d
    simp only [List.mem_filter, beq_iff_eq, Tables.Child, eq_iff_iff]
    constructor
    · rintro ⟨a, ⟨ha, hp⟩, hid⟩
      exact ⟨a, ha, hid, hp⟩
    · rintro ⟨a, ha, hid, hp⟩
      exact ⟨a, ⟨ha, hp⟩, hid⟩
  have h := hcheck.forM (·.jobId) (v.tables.jobs.filter fun j => j.triggerOnJobId == some parent)
    v due hpath fun a ha => .inl (hdue _ (by rw [← hids]; exact ⟨a, ha, rfl⟩))
  rwa [hids] at h

/-- `settle_check` settles a job that is exhausted, and checks the downstreams of a job it has
settled.  The induction is on the recursion limit. -/
theorem settleCheck_checks (aging : Aging older)
    (hsettle : ∀ now j, j.state = .active → older j (j.settle now))
    (hk : Coherent L₀.tables L₀.seq) (now : Int) (depth : Nat) :
    Checks m libs L₀ spent (rowAccount older pick start) (settleCheck now depth) := by
  induction depth with
  | zero => exact fun id v due _ _ => trivial
  | succ depth ih =>
    intro id v due hpath hid
    have keys : Coherent v.tables v.seq := hpath.coherent hk
    have hclear : ¬v.tables.Exhausted id →
        ∃ due', Checked m libs L₀ spent v due (· = id) v due' := by
      intro hex
      refine ⟨fun d => due d ∧ d ≠ id, hpath.tail (.clear hex), fun d hd => hd, fun d hd => ?_,
        .refl _, fun _ => rfl⟩
      by_cases hdid : d = id
      · exact .inr (hdid ▸ hex)
      · exact hd.imp_left fun hd => ⟨hd, hdid⟩
    unfold settleCheck
    simp only [Program.wp_bind, wp_loadJobs]
    intro rows hrows
    rcases loaded_head hrows with ⟨hnone, hno⟩ | ⟨c, hsome, r, hr, hrid, hcr⟩
    · rw [hnone]
      refine hclear ?_
      rintro ⟨j, hj, hjid, -⟩
      simpa [hjid] using hno j hj
    · rw [hsome]
      dsimp only
      simp only [beq_iff_eq] at hrid
      -- a row that is exhausted can only be the one that was loaded
      have hrow : v.tables.Exhausted id → r.state = .active ∧ r.cronExpr = none ∧
          ¬v.tables.Executing id ∧ ∀ p, r.triggerOnJobId = some p → ¬v.tables.Active p := by
        rintro ⟨j, hj, hjid, hrest⟩
        rw [keys.job_eq hr hj (hrid.trans hjid.symm)]
        exact hrest
      by_cases hcs : c.state = .active
      swap
      · rw [if_pos (by simpa using hcs)]
        refine hclear fun hex => ?_
        rcases aging.state hcr with h | h
        · exact hcs (h.trans (hrow hex).1)
        · exact hcs h
      rw [if_neg (by simpa using hcs)]
      by_cases hcc : c.cronExpr.isSome = true
      · rw [if_pos hcc]
        refine hclear fun hex => ?_
        rw [aging.cronExpr hcr, (hrow hex).2.1] at hcc
        cases hcc
      rw [if_neg hcc]
      simp only [acquireJobLock, Program.wp_bind, wp_advisoryLock]
      refine wp_hasExecutingRun fun b hb => ?_
      cases b with
      | true => exact hclear fun hex => (hrow hex).2.2.1 (hb.mp rfl)
      | false =>
        simp only [Bool.false_eq_true, if_false, Program.wp_bind]
        refine wp_triggerParentActive keys fun b' hb' => ?_
        cases b' with
        | true =>
          refine hclear fun hex => ?_
          obtain ⟨p, hp, hpa⟩ := hb'.mp rfl
          rw [aging.triggerOnJobId hcr] at hp
          exact (hrow hex).2.2.2 p hp hpa
        | false =>
          simp only [Bool.false_eq_true, if_false, Program.wp_bind, wp_updateJobs]
          refine ⟨fun j hj => hsettle now j (by simp at hj; exact hj.2), ?_⟩
          by_cases hrs : r.state = .active
          swap
          · -- the compare-and-set loses: the row has left `active` since it was loaded
            have hempty : v.jobIds (fun j => j.jobId == id && j.state == .active) = [] := by
              simp only [View.jobIds, List.map_eq_nil_iff, List.filter_eq_nil_iff]
              intro j hj hp
              simp only [Bool.and_eq_true, beq_iff_eq] at hp
              rw [keys.job_eq hj hr (hp.1.trans hrid.symm)] at hp
              exact hrs hp.2
            rw [hempty]
            have hsame : v.write (.updateJobs [] (Job.settle now)) = v := by
              simp [View.write, Write.apply]
            rw [hsame]
            exact hclear fun hex => hrs (hrow hex).1
          · have hp : (r.jobId == id && r.state == .active) = true := by simp [hrid, hrs]
            have hne : (v.jobIds fun j => j.jobId == id && j.state == .active).isEmpty = false := by
              simp only [View.jobIds, List.isEmpty_eq_false_iff_exists_mem, List.mem_map,
                List.mem_filter]
              exact ⟨r.jobId, r, ⟨hr, hp⟩, rfl⟩
            have hupd := updateJobs_byKey (p := fun j => j.jobId == id && j.state == .active) hr hp
              (fun i hi => by
                simp only [Bool.and_eq_true, beq_iff_eq] at hi
                exact hi.1.trans hrid.symm) (Job.settle now)
            have hex : v.tables.Exhausted id := by
              refine ⟨r, hr, hrid, hrs, ?_, fun h => ?_, fun p hp hpa => ?_⟩
              · rw [← aging.cronExpr hcr]
                simpa using hcc
              · exact absurd (hb.mpr h) (by simp)
              · rw [← aging.triggerOnJobId hcr] at hp
                exact absurd (hb'.mpr ⟨p, hp, hpa⟩) (by simp)
            have hdue : due id := hid.resolve_right (not_not.mpr hex)
            rw [hne]
            simp only [Bool.false_eq_true, if_false]
            set v₁ := v.write (.updateJobs (v.jobIds fun j => j.jobId == id && j.state == .active)
              (Job.settle now)) with hv₁
            have ht₁ : v₁.tables = v.tables.setJob id (Job.settle now) := hrid ▸ hupd
            have hset : v.tables.Settled v₁.tables := by
              rw [ht₁]
              exact .setJob fun j hj hjid => by rw [keys.job_eq hj hr (hjid.trans hrid.symm), hrs]
            have hpath₁ : Changes m libs L₀ (v₁.ledger
                (fun d => (due d ∧ d ≠ id) ∨ v₁.tables.Child id d) spent) := by
              simp only [View.ledger, ht₁]
              exact hpath.tail (.settle hdue hex)
            rw [Program.wp_bind]
            refine Program.wp_mono (ih.downstreams id v₁ _ hpath₁ fun d hd => .inr hd) ?_
            rintro _ v₂ ⟨due₂, h₂⟩
            refine ⟨due₂, h₂.path, fun d hd => ?_, fun d hd => h₂.sound d ?_,
              hset.trans h₂.settled, fun h => absurd hex (h id rfl)⟩
            · obtain ⟨h | h, hnot⟩ := h₂.owed d hd
              · exact h
              · exact absurd h hnot
            · by_cases hexd : v₁.tables.Exhausted d
              · left
                rw [ht₁] at hexd
                obtain ⟨hne, hcase | hcase⟩ := exhausted_setJob hexd
                · exact .inl ⟨hd.resolve_right (not_not.mpr hcase), hne⟩
                · right
                  obtain ⟨j, hj, hjid, hjp⟩ := hcase
                  rw [ht₁]
                  refine ⟨_, Tables.mem_setJob.mpr ⟨j, hj, rfl⟩, ?_⟩
                  split
                  · exact ⟨hjid, hjp⟩
                  · exact ⟨hjid, hjp⟩
              · exact .inr hexd

end Changes

end TaskScheduler
