import TaskScheduler.Interleave.Site

/-! The continuation consumer among other transactions: every write that it makes is valid, whatever
the others commit between its statements. -/

namespace TaskScheduler

open Lib

namespace Site

/-- The transaction has moved on to `g'`, outside a savepoint. -/
structure Reaches (τ : Terms) (libs : Libs) (k : Kind) (g g' : Site) : Prop where
  later : Later τ g g'
  kept : g'.Kept τ libs k
  saved : g'.ses.saved = none

variable {τ : Terms} {libs : Libs} {k : Kind} {g g₁ g' g'' : Site}

theorem Reaches.trans (h : Reaches τ libs k g g') (h' : Reaches τ libs k g' g'') :
    Reaches τ libs k g g'' :=
  ⟨h.later.trans h'.later, h'.kept, h'.saved⟩

theorem Later.load (g : Site) (p : Job → Bool) : Later τ g (g.load p) :=
  ⟨.refl _, ⟨[], by simp [Site.load, Site.on]⟩, .refl _, fun _ hc => List.mem_append_left _ hc,
    g.seq.le_refl⟩

theorem Later.lock (g : Site) (key : Nat) : Later τ g (g.lock key) :=
  ⟨.refl _, ⟨[], by simp [Site.lock, Site.on]⟩,
    ⟨fun _ h => List.mem_cons_of_mem _ h, fun _ h => h, fun _ h => h⟩, fun _ hc => hc, g.seq.le_refl⟩

theorem Later.lockRows (g : Site) (rows : List JobRun) : Later τ g (g.lockRows rows) :=
  ⟨.refl _, ⟨[], by simp [Site.lockRows, Site.on]⟩,
    ⟨fun _ h => h, fun _ h => h, fun _ h => List.mem_append_right _ h⟩, fun _ hc => hc,
    g.seq.le_refl⟩

theorem Later.save (g : Site) : Later τ g g.save :=
  ⟨.refl _, ⟨[], by simp [Site.save, Site.on]⟩, .refl _, fun _ hc => hc, g.seq.le_refl⟩

theorem Later.release (g : Site) : Later τ g g.release :=
  ⟨.refl _, ⟨[], by simp [Site.release, Site.on]⟩, .refl _, fun _ hc => hc, g.seq.le_refl⟩

theorem Later.write (g : Site) (w : Write) : Later τ g (g.write w) :=
  ⟨.refl _, ⟨[w], rfl⟩, .refl _, fun _ hc => hc, g.seq.le_refl⟩

theorem Later.updateJobs (g : Site) (ids : List Nat) (set : Job → Job) :
    Later τ g (g.updateJobs ids set) :=
  ⟨.refl _, ⟨[_], rfl⟩, ⟨fun _ h => h, fun _ h => List.mem_append_right _ h, fun _ h => h⟩,
    fun _ hc => hc, g.seq.le_refl⟩

theorem Later.updateRuns (g : Site) (ids : List Nat) (set : JobRun → JobRun) :
    Later τ g (g.updateRuns ids set) :=
  ⟨.refl _, ⟨[_], rfl⟩, ⟨fun _ h => h, fun _ h => h, fun _ h => List.mem_append_right _ h⟩,
    fun _ hc => hc, g.seq.le_refl⟩

theorem Later.updateEvents (g : Site) (ids : List Nat) (set : RunEvent → RunEvent) :
    Later τ g (g.updateEvents ids set) :=
  ⟨.refl _, ⟨[_], rfl⟩, ⟨fun _ h => h, fun _ h => h, fun _ h => h⟩, fun _ hc => hc, g.seq.le_refl⟩

theorem Later.nextJob (g : Site) : Later τ g g.nextJob :=
  ⟨.refl _, ⟨[], by simp [Site.nextJob]⟩, .refl _, fun _ hc => hc,
    ⟨Nat.le_succ _, le_rfl, le_rfl⟩⟩

theorem Later.nextRun (g : Site) : Later τ g g.nextRun :=
  ⟨.refl _, ⟨[], by simp [Site.nextRun]⟩, .refl _, fun _ hc => hc,
    ⟨le_rfl, Nat.le_succ _, le_rfl⟩⟩

theorem Later.nextEvent (g : Site) : Later τ g g.nextEvent :=
  ⟨.refl _, ⟨[], by simp [Site.nextEvent]⟩, .refl _, fun _ hc => hc,
    ⟨le_rfl, le_rfl, Nat.le_succ _⟩⟩

end Site

/-- A program of which every write is valid. -/
def Keeps (τ : Terms) (libs : Libs) (k : Kind) {α : Type} (t : Txn α) : Prop :=
  ∀ g : Site, g.Kept τ libs k → g.ses.saved = none →
    t.wp (amongOthers τ libs k) (fun _ _ => True) (fun _ g' => g.Reaches τ libs k g') g

namespace Keeps

variable {τ : Terms} {libs : Libs} {k : Kind} {α β : Type}

theorem ret (a : α) : Keeps τ libs k (Program.ret a : Txn α) :=
  fun g hk hs => ⟨.refl g, hk, hs⟩

theorem bind {t : Txn α} {f : α → Txn β} (ht : Keeps τ libs k t) (hf : ∀ a, Keeps τ libs k (f a)) :
    Keeps τ libs k (t >>= f) := by
  intro g hk hs
  rw [Program.wp_bind]
  refine Program.wp_mono (ht g hk hs) fun a g₁ h₁ => ?_
  exact Program.wp_mono (hf a g₁ h₁.kept h₁.saved) fun _ g₂ h₂ => h₁.trans h₂

theorem forM {f : β → Txn PUnit} {bs : List β} (hf : ∀ b ∈ bs, Keeps τ libs k (f b)) :
    Keeps τ libs k (bs.forM f) := by
  induction bs with
  | nil => exact ret _
  | cons b bs ih =>
    rw [Program.forM_cons]
    exact (hf b List.mem_cons_self).bind fun _ => ih fun b hb => hf b (List.mem_cons_of_mem _ hb)

theorem selectJobs (hτ : τ.Stable) (p : Job → Bool) : Keeps τ libs k (Txn.selectJobs p) :=
  fun _ hk hs => among_selectJobs hτ hk fun _ he hk₁ => ⟨he.later, hk₁, he.ses ▸ hs⟩

theorem selectRuns (hτ : τ.Stable) (p : JobRun → Bool) : Keeps τ libs k (Txn.selectRuns p) :=
  fun _ hk hs => among_selectRuns hτ hk fun _ he hk₁ => ⟨he.later, hk₁, he.ses ▸ hs⟩

theorem advisoryLock (hτ : τ.Stable) (key : Nat) : Keeps τ libs k (Txn.advisoryLock key) :=
  fun _ hk hs => among_advisoryLock hτ hk fun g₁ he hk₁ =>
    ⟨he.later.trans (.lock g₁ key), hk₁, (congrArg Session.saved he.ses).trans hs⟩

theorem loadJobs (hτ : τ.Stable) (hc : k.creates = false) (p : Job → Bool) :
    Keeps τ libs k (Txn.loadJobs p) :=
  fun _ hk hs => among_loadJobs hτ hk hs (.inl hc) fun g₁ _ he hk₁ _ =>
    ⟨he.later.trans (.load g₁ p), hk₁, (congrArg Session.saved he.ses).trans hs⟩

end Keeps

/-! ### Settle checks -/

section Settle

variable {τ : Terms} {libs : Libs} {k : Kind}

/-- An update that matches active rows by their state. -/
theorem matched_active {rows : List Job} (hnd : (rows.map (·.jobId)).Nodup) {p : Job → Bool} {j : Job}
    (hj : j ∈ rows) (hid : j.jobId ∈ (rows.filter p).map (·.jobId)) : p j = true := by
  obtain ⟨i, hi, hij⟩ := List.mem_map.mp hid
  rw [← List.inj_on_of_nodup_map hnd (List.mem_filter.mp hi).1 hj hij]
  exact (List.mem_filter.mp hi).2

/-- The settle of a job without a schedule. -/
theorem keeps_settle (hτ : τ.Stable) (hc : k.creates = false) (now : Int) {p : Job → Bool}
    {g : Site} (hk : g.Kept τ libs k) (hs : g.ses.saved = none)
    (hp : ∀ g₁, g.Env τ g₁ → g₁.Kept τ libs k → ∀ j ∈ g₁.view.jobs, p j = true →
      j.state = .active ∧ j.cronExpr = none) :
    (Txn.updateJobs p (Job.settle now)).wp (amongOthers τ libs k) (fun _ _ => True)
      (fun _ g' => g.Reaches τ libs k g' ∧ ∀ r, g.Holds r → g'.Holds r) g := by
  refine among_updateJobs hτ hk hc ⟨now, .inl rfl⟩ fun g₁ ids he hk₁ hids => ⟨?_, fun hk₂ => ?_⟩
  · intro j hj hid
    have hnd := hk₁.jobs_nodup he.coherent (.inl hc)
    obtain ⟨hactive, hcron⟩ := hp g₁ he hk₁ j hj (matched_active hnd hj (hids ▸ hid))
    exact ⟨hactive, ((hk₁.now.linked he.coherent.linked).lifecycle j hj).settle hactive hcron now⟩
  · refine ⟨⟨he.later.trans (.updateJobs g₁ ids _), hk₂, (congrArg Session.saved he.ses).trans hs⟩,
      fun r hr => (hr.env hτ hk he).of_view (fun _ h => h) ?_⟩
    simp [Site.view, Session.view, Site.updateJobs, Site.on, Session.write, Write.apply]

theorem settleDownstreams_keeps (hτ : τ.Stable) {check : Nat → Txn Bool}
    (h : ∀ id, Keeps τ libs k (check id)) (parent : Nat) :
    Keeps τ libs k (settleDownstreams check parent) :=
  (Keeps.selectJobs hτ _).bind fun _ => .forM fun d _ => (h d.jobId).bind fun _ => .ret _

theorem triggerParentActive_keeps (hτ : τ.Stable) (job : Job) :
    Keeps τ libs k (triggerParentActive job) := by
  unfold triggerParentActive
  cases job.triggerOnJobId with
  | none => exact .ret _
  | some parent => exact (Keeps.selectJobs hτ _).bind fun _ => .ret _

/-- A job that a session has loaded has the definition of its row. -/
theorem Site.Kept.row_of_entity {g : Site} (h : g.Kept τ libs k) (hk : Coherent g.committed g.seq)
    (hc : k.creates = false) {c j : Job} (hcl : c ∈ g.ses.loaded) (hj : j ∈ g.view.jobs)
    (hid : j.jobId = c.jobId) : c.Since j := by
  obtain ⟨i, hi, hs⟩ := h.now.entities c hcl
  rwa [List.inj_on_of_nodup_map (h.jobs_nodup hk (.inl hc)) hj hi (hid.trans hs.jobId.symm)]

theorem settleCheck_keeps (hτ : τ.Stable) (hc : k.creates = false) (now : Int) (depth id : Nat) :
    Keeps τ libs k (settleCheck now depth id) := by
  induction depth generalizing id with
  | zero => exact fun _ _ _ => trivial
  | succ depth ih =>
    intro g hk hs
    unfold settleCheck
    rw [Program.wp_bind]
    refine among_loadJobs hτ hk hs (.inl hc) fun g₁ cs he hk₁ hcs => ?_
    have hr₁ : g.Reaches τ libs k (g₁.load _) :=
      ⟨he.later.trans (.load g₁ _), hk₁, (congrArg Session.saved he.ses).trans hs⟩
    cases hhead : cs.head? with
    | none => exact hr₁
    | some c =>
      have hmem : c ∈ cs := List.mem_of_mem_head? hhead
      obtain ⟨r, hr, hcl, hcr⟩ : ∃ r ∈ g₁.view.jobs.filter (fun j => j.jobId == id),
          c ∈ (g₁.load fun j => j.jobId == id).ses.loaded ∧ c.Since r := by
        obtain ⟨i, hi, rfl⟩ := List.mem_iff_getElem.mp hmem
        obtain ⟨hlen, hget⟩ := List.forall₂_iff_get.mp hcs
        exact ⟨_, List.getElem_mem (hlen ▸ hi), hget i hi (hlen ▸ hi)⟩
      have hcid : c.jobId = id := by
        have := (List.mem_filter.mp hr).2
        simp only [beq_iff_eq] at this
        exact hcr.jobId.symm.trans this
      dsimp only
      by_cases hcs' : (c.state != .active) = true
      · rw [if_pos hcs']
        exact hr₁
      rw [if_neg hcs']
      by_cases hcc : c.cronExpr.isSome = true
      · rw [if_pos hcc]
        exact hr₁
      rw [if_neg hcc]
      -- the rest keeps, and the update finds the row of the entity that was loaded
      unfold acquireJobLock hasExecutingRun
      simp only [Program.wp_bind]
      refine Program.wp_mono (Keeps.advisoryLock hτ id _ hk₁ hr₁.saved) fun _ g₂ h₂ => ?_
      simp only [Program.wp_bind]
      refine Program.wp_mono (Keeps.selectRuns hτ _ g₂ h₂.kept h₂.saved) fun rows g₃ h₃ => ?_
      have hr₃ := (hr₁.trans h₂).trans h₃
      simp only [Program.pure_eq, Program.wp_ret]
      split
      · exact hr₃
      rw [Program.wp_bind]
      refine Program.wp_mono (triggerParentActive_keeps hτ c g₃ h₃.kept h₃.saved)
        fun b g₄ h₄ => ?_
      split
      · exact hr₃.trans h₄
      rw [Program.wp_bind]
      have hcl₄ : c ∈ g₄.ses.loaded := ((h₂.trans h₃).trans h₄).later.loaded c hcl
      refine Program.wp_mono (keeps_settle hτ hc now h₄.kept h₄.saved
        fun g₅ he₅ hk₅ j hj hp => ?_) ?_
      · simp only [Bool.and_eq_true, beq_iff_eq] at hp
        have hcj := hk₅.row_of_entity he₅.coherent hc (he₅.ses ▸ hcl₄) hj (hp.1.trans hcid.symm)
        refine ⟨hp.2, ?_⟩
        rw [← since_aging.cronExpr hcj]
        simpa using hcc
      · rintro ids g₅ ⟨h₅, -⟩
        split
        · exact (hr₃.trans h₄).trans h₅
        · rw [Program.wp_bind]
          refine Program.wp_mono (settleDownstreams_keeps hτ (fun d => ih d) id g₅ h₅.kept h₅.saved)
            fun _ g₆ h₆ => ?_
          exact ((hr₃.trans h₄).trans h₅).trans h₆

end Settle

/-! ### The creation of a run -/

/-- What other transactions and the session's own writes keep. -/
structure Persists (τ : Terms) (libs : Libs) (k : Kind) (P : Tables → Prop) : Prop where
  others : ∀ held t t', Others τ.calm held t t' → P t → P t'
  write : ∀ held loaded t w, Valid τ libs k held loaded t w → P t → P (w.apply t)

theorem Persists.later {τ : Terms} {libs : Libs} {k : Kind} {P : Tables → Prop} {g g' : Site}
    (hP : Persists τ libs k P) (hτ : τ.Stable) (h : Site.Later τ g g') (hk : g.Kept τ libs k)
    (hk' : g'.Kept τ libs k) (hg : P g.view) : P g'.view :=
  h.persist hk hk' hτ hP.others hP.write hg

section Facts

variable {τ : Terms} {libs : Libs} {k : Kind}

/-- A job of a user stays in the table. -/
theorem persists_job (id : Nat) (u : String) :
    Persists τ libs k fun t => ∃ j ∈ t.jobs, j.jobId = id ∧ j.userId = u where
  others held t t' ho := by
    rintro ⟨j, hj, rfl, rfl⟩
    obtain ⟨j', hj', hs, -⟩ := ho.jobs j hj
    exact ⟨j', hj', hs.jobId, hs.userId⟩
  write held loaded t w hw := by
    rintro ⟨j, hj, rfl, rfl⟩
    cases w with
    | insertJob row => exact ⟨j, List.mem_append_left _ hj, rfl, rfl⟩
    | updateJobs ids set =>
      refine ⟨_, List.mem_map.mpr ⟨j, hj, rfl⟩, ?_⟩
      split
      · exact ⟨(sameDef_set hw.2.2.1 j).1, (sameDef_set hw.2.2.1 j).2.2⟩
      · exact ⟨rfl, rfl⟩
    | _ => exact ⟨j, hj, rfl, rfl⟩

/-- The chain of a job stays. -/
theorem persists_chain (n id : Nat) : Persists τ libs k fun t => Chained t.jobs n id where
  others held t t' ho h := h.mono ho.chain
  write held loaded t w hw h := by
    refine h.mono fun j hj => ?_
    cases w with
    | insertJob row => exact ⟨j, List.mem_append_left _ hj, rfl, rfl⟩
    | updateJobs ids set =>
      refine ⟨_, List.mem_map.mpr ⟨j, hj, rfl⟩, ?_⟩
      split
      · exact ⟨(sameDef_set hw.2.2.1 j).1, (sameDef_set hw.2.2.1 j).2.1⟩
      · exact ⟨rfl, rfl⟩
    | _ => exact ⟨j, hj, rfl, rfl⟩

/-- A run stays in the table. -/
theorem persists_run (r : JobRun) : Persists τ libs k fun t => ∃ r' ∈ t.runs, r.SameRun r' where
  others held t t' ho := by
    rintro ⟨r₁, hr₁, hs⟩
    obtain ⟨r', hr', hs', -⟩ := ho.runs r₁ hr₁
    exact ⟨r', hr', hs.trans hs'⟩
  write held loaded t w hw := by
    rintro ⟨r₁, hr₁, hs⟩
    cases w with
    | insertRun row => exact ⟨r₁, List.mem_append_left _ hr₁, hs⟩
    | updateRuns ids set =>
      refine ⟨_, List.mem_map.mpr ⟨r₁, hr₁, rfl⟩, ?_⟩
      split
      · exact hs.trans (hw.1 r₁)
      · exact hs
    | _ => exact ⟨r₁, hr₁, hs⟩

/-- An event stays in the table. -/
theorem persists_event (e : RunEvent) :
    Persists τ libs k fun t => ∃ e' ∈ t.events, e.SameEvent e' where
  others held t t' ho := by
    rintro ⟨e₁, he₁, hs⟩
    obtain ⟨e', he', hs'⟩ := ho.events e₁ he₁
    exact ⟨e', he', hs.trans hs'⟩
  write held loaded t w hw := by
    rintro ⟨e₁, he₁, hs⟩
    cases w with
    | insertEvent row => exact ⟨e₁, List.mem_append_left _ he₁, hs⟩
    | updateEvents ids set =>
      obtain ⟨_, by_, -, rfl, -⟩ := hw
      refine ⟨_, List.mem_map.mpr ⟨e₁, he₁, rfl⟩, hs.trans ?_⟩
      split <;> rfl
    | _ => exact ⟨e₁, he₁, hs⟩

theorem persists_true : Persists τ libs k fun _ => True := ⟨fun _ _ _ _ => id, fun _ _ _ _ _ => id⟩

end Facts

section Spawn

variable {τ : Terms} {libs : Libs} {k : Kind} {g : Site}

/-- Back at the savepoint. -/
theorem Site.Later.back {g' : Site} (h : Later τ g g') :
    Later τ g (g'.back g.ses.writes g.ses.held) :=
  ⟨h.others, ⟨[], by simp [Site.back, Site.on]⟩, .refl _, h.loaded, h.seq⟩

/-- The run that an attempt would create has the cause `Source`; where the attempt ends, `P` holds
whether the job was executing, the run was there already, or is new. -/
structure Attempt (τ : Terms) (libs : Libs) (k : Kind) (g : Site) (job : Job) (runAt : Int)
    (wait : Option Nat) (P : Tables → Prop) : Prop where
  persists : Persists τ libs k P
  job_exists : ∃ j ∈ g.view.jobs, j.jobId = job.jobId ∧ j.userId = job.userId
  source : ∀ g₁, g.Later τ g₁ → g₁.Kept τ libs k → Coherent g₁.committed g₁.seq → ∀ row : JobRun,
    row.jobId = job.jobId → row.waitForRunId = wait → row.scheduledAt = runAt →
    Source libs k g₁.ses.loaded g₁.view row
  busy : ∀ g₁, g.Later τ g₁ → g₁.Kept τ libs k → Coherent g₁.committed g₁.seq →
    τ.inv g₁.committed → g₁.view.Executing job.jobId → P g₁.view
  clash : ∀ g₁, g.Later τ g₁ → g₁.Kept τ libs k → ∀ x ∈ g₁.view.runs, x.jobId = job.jobId →
    (wait = none ∧ x.waitForRunId = none ∧ x.scheduledAt = runAt ∨
      wait.isSome = true ∧ x.waitForRunId = wait) → P g₁.view

/-- A run of `row`'s job that clashes with it: it is executing, or has the same cause. -/
theorem JobRun.clash_cases {row x : JobRun} (h : row.clashes x = true) : x.jobId = row.jobId ∧
    (x.status.executing = true ∨ row.waitForRunId = none ∧ x.waitForRunId = none ∧
      x.scheduledAt = row.scheduledAt ∨
      row.waitForRunId.isSome = true ∧ x.waitForRunId = row.waitForRunId) := by
  simp only [JobRun.clashes, Bool.and_eq_true, Bool.or_eq_true, beq_iff_eq] at h
  obtain ⟨hj, (⟨⟨-, -⟩, hex⟩ | ⟨hs, heq⟩) | ⟨⟨hn, hn'⟩, hsch⟩⟩ := h
  · exact ⟨hj.symm, .inl hex⟩
  · exact ⟨hj.symm, .inr (.inr ⟨hs, heq.symm⟩)⟩
  · refine ⟨hj.symm, .inr (.inl ⟨?_, ?_, hsch.symm⟩)⟩
    · simpa using hn
    · simpa using hn'

theorem JobRun.index_of_not_clash {row x : JobRun} (h : row.clashes x = false)
    (hj : x.jobId = row.jobId) :
    (row.waitForRunId.isSome = true → x.waitForRunId ≠ row.waitForRunId) ∧
      (row.waitForRunId = none → x.waitForRunId = none → x.scheduledAt ≠ row.scheduledAt) := by
  refine ⟨fun hs heq => ?_, fun hn hn' heq => ?_⟩
  · simp [JobRun.clashes, hj, hs, heq] at h
  · simp [JobRun.clashes, hj, hn, hn', heq] at h

theorem among_beginNested_spawnRun {Q : Except SpawnError Nat → Site → Prop}
    (hτ : τ.Stable) (hk : g.Kept τ libs k) {job : Job} {runAt : Int} {wait : Option Nat}
    {P : Tables → Prop} (ha : Attempt τ libs k g job runAt wait P)
    (hQ : ∀ res g', g.Reaches τ libs k g' → P g'.view → Q res g') :
    (beginNested (spawnRun job runAt .pending wait)).wp (amongOthers τ libs k) (fun _ _ => True) Q
      g := by
  unfold beginNested spawnRun acquireJobLock hasExecutingRun
  simp only [Program.wp_bind]
  refine among_savepoint hτ hk fun g₁ he₁ hk₁ => ?_
  simp only [Program.wp_bind]
  refine among_advisoryLock hτ hk₁ fun g₂ he₂ hk₂ => ?_
  simp only [Program.wp_bind]
  refine among_selectRuns hτ hk₂ fun g₃ he₃ hk₃ => ?_
  have hl₃ : g.Later τ g₃ :=
    ((he₁.later.trans (.save g₁)).trans (he₂.later.trans (.lock g₂ _))).trans he₃.later
  have hw₃ : g₃.ses.writes = g.ses.writes := by
    rw [he₃.ses]
    change g₂.ses.writes = _
    rw [he₂.ses]
    change g₁.ses.writes = _
    rw [he₁.ses]
  have hsaved : ∀ g₄ : Site, g₄.ses.saved = g₃.ses.saved →
      g₄.ses.saved = some (g.ses.writes, g.ses.held) := by
    intro g₄ h₄
    rw [h₄, he₃.ses]
    change g₂.ses.saved = _
    rw [he₂.ses]
    change some (g₁.ses.writes, g₁.ses.held) = _
    rw [he₁.ses]
  -- the ends without a run go back to the savepoint
  have hback : ∀ (err : SpawnError) (g₄ : Site), g.Later τ g₄ → g₄.Kept τ libs k →
      g₄.ses.writes = g.ses.writes → g₄.ses.saved = g₃.ses.saved → P g₄.view →
      ((Txn.rollbackTo >>= fun _ => pure (.error err) : Txn (Except SpawnError Nat))).wp
        (amongOthers τ libs k) (fun _ _ => True) Q g₄ := by
    intro err g₄ hl₄ hk₄ hw₄ hs₄ hP
    rw [Program.wp_bind]
    refine among_rollbackTo hτ hk₄ (hsaved g₄ hs₄) fun g₅ he₅ hk₅ => ?_
    refine hQ _ _ ⟨(hl₄.trans he₅.later).back, hk₅, rfl⟩ ?_
    have hview := (hk₄.now.stable hτ he₅.others).2
    rw [hw₄] at hview
    refine ha.persists.others _ _ _ hview ?_
    rw [← hw₄]
    exact hP
  simp only [Program.pure_eq, Program.wp_ret]
  split
  · next hbusy =>
    refine hback .concurrency g₃ hl₃ hk₃ hw₃ rfl
      (ha.busy g₃ hl₃ hk₃ he₃.coherent he₃.inv ?_)
    simp only [Bool.not_eq_true', List.isEmpty_eq_false_iff_exists_mem, List.mem_filter,
      Bool.and_eq_true, beq_iff_eq] at hbusy
    obtain ⟨r, hr, hj, hex⟩ := hbusy
    exact ⟨r, hr, hj, hex⟩
  · next hidle =>
    have hidle' : ¬g₃.view.Executing job.jobId := by
      rintro ⟨r, hr, hj, hex⟩
      refine hidle ?_
      simp only [Bool.not_eq_true', List.isEmpty_eq_false_iff_exists_mem, List.mem_filter,
        Bool.and_eq_true, beq_iff_eq]
      exact ⟨r, hr, hj, hex⟩
    have hlock : ∀ g₄, g₃.Env τ g₄ → job.jobId ∈ g₄.ses.held.advisory := by
      intro g₄ he₄
      rw [he₄.ses, he₃.ses]
      exact List.mem_cons_self
    rw [Program.wp_bind]
    refine among_insertRun hτ hk₃ (fun g₄ he₄ hk₄ hc => ?_) fun g₄ he₄ hk₄ hc => ⟨?_, fun hk₅ => ?_⟩
    · refine hback .integrity g₄.nextRun (hl₃.trans (he₄.later.trans (.nextRun g₄))) hk₄
        ((congrArg Session.writes he₄.ses).trans hw₃) (congrArg Session.saved he₄.ses) ?_
      have hk₄' : g₄.Kept τ libs k := ⟨hk₄.now, hk₄.saved⟩
      obtain ⟨x, hx, hcl⟩ := List.any_eq_true.mp hc
      obtain ⟨hj, hex | hcause⟩ := JobRun.clash_cases hcl
      · exact ha.busy g₄ (hl₃.trans he₄.later) hk₄' he₄.coherent he₄.inv ⟨x, hx, hj, hex⟩
      · exact ha.clash g₄ (hl₃.trans he₄.later) hk₄' x hx hj hcause
    · have hview := (hk₃.env hτ he₄).2
      have hjob := (persists_job job.jobId _).later hτ (hl₃.trans he₄.later) hk hk₄ ha.job_exists
      refine ⟨rfl, hjob, hlock g₄ he₄, fun hcalm => ?_, fun x hx hj => ?_, ?_⟩
      · exact hview.idle hcalm (he₄.ses ▸ hlock g₄ he₄) hidle'
      · exact JobRun.index_of_not_clash (by simpa using List.any_eq_false.mp hc x hx) hj
      · exact ha.source g₄ (hl₃.trans he₄.later) hk₄ he₄.coherent _ rfl rfl rfl
    · -- the run is inserted, and its event follows
      have hl₅ := (hl₃.trans he₄.later).trans ((Site.Later.write (τ := τ) g₄ _).trans
        (.nextRun (g₄.write (.insertRun (storedRun g₄.seq g₄.ses.start
          (.new job runAt .pending wait))))))
      have hrun : ∃ r ∈ (g₄.write (.insertRun (storedRun g₄.seq g₄.ses.start
          (.new job runAt .pending wait)))).nextRun.view.runs,
          (storedRun g₄.seq g₄.ses.start (.new job runAt .pending wait)).SameRun r := by
        refine ⟨storedRun g₄.seq g₄.ses.start (.new job runAt .pending wait), ?_, .refl _⟩
        simp [Site.view, Session.view, Site.write, Site.nextRun, Site.on, Session.write,
          Write.apply]
      rw [Program.wp_bind]
      refine among_insertEvent hτ hk₅ fun g₆ he₆ hk₆ => ⟨?_, fun hk₇ => ?_⟩
      · obtain ⟨r, hr, hsr⟩ := (persists_run _).later hτ he₆.later hk₅ hk₆ hrun
        exact ⟨⟨r, hr, hsr.runId, hsr.jobId⟩, fun h => by cases h⟩
      · simp only [Program.wp_ret]
        rw [Program.wp_bind]
        refine among_release hτ hk₇ fun g₈ he₈ hk₈ => ?_
        have hl₇ := he₆.later.trans ((Site.Later.write (τ := τ) g₆ _).trans (.nextEvent (g₆.write
          (.insertEvent (storedEvent g₆.seq g₆.ses.start
            (.new g₄.seq.runs job.jobId .created none (some .pending) none))))))
        have hl₈ := (hl₇.trans he₈.later).trans (Site.Later.release g₈)
        refine hQ _ _ ⟨hl₅.trans hl₈, hk₈, rfl⟩ ?_
        obtain ⟨r, hr, hsr⟩ := (persists_run _).later hτ hl₈ hk₅ hk₈ hrun
        refine ha.clash _ (hl₅.trans hl₈) hk₈ r hr hsr.jobId ?_
        rw [hsr.waitForRunId, hsr.scheduledAt]
        cases wait with
        | none => exact .inl ⟨rfl, rfl, rfl⟩
        | some w => exact .inr ⟨rfl, rfl⟩

end Spawn

/-! ### The body for one event -/

/-- What part (a) of the body establishes where the consumer will stamp the event `e`. -/
structure Continues (τ : Terms) (libs : Libs) (k : Kind) (e : RunEvent) : Prop where
  persists : Persists τ libs k fun t => τ.cont t e
  ended : ∀ t : Tables, (∃ e' ∈ t.events, e.SameEvent e') → (∃ j ∈ t.jobs, j.jobId = e.jobId ∧
    (j.cronExpr = none ∨ j.state = .cancelled)) → τ.cont t e
  busy : ∀ g : Site, g.Kept τ libs k → Coherent g.committed g.seq → τ.inv g.committed →
    (∃ e' ∈ g.view.events, e.SameEvent e') → g.view.Executing e.jobId → τ.cont g.view e
  tick : ∀ (t : Tables) (prev x : JobRun) (cron zone : String),
    (∃ e' ∈ t.events, e.SameEvent e') → prev ∈ t.runs → x ∈ t.runs →
    prev.runId = e.runId → prev.jobId = e.jobId → x.jobId = e.jobId →
    nextAfter libs cron zone (successorAnchor prev e.occurredAt) = some x.scheduledAt → τ.cont t e

section Body

variable {τ : Terms} {libs : Libs} {k : Kind} {e : RunEvent} {c : Job}

/-- The run of an event is in the table. -/
theorem Site.Kept.run_of_event {g : Site} (h : g.Kept τ libs k) (hk : Coherent g.committed g.seq)
    (he : ∃ e' ∈ g.view.events, e.SameEvent e') :
    ∃ r ∈ g.view.runs, r.runId = e.runId ∧ r.jobId = e.jobId := by
  obtain ⟨e', he', hs⟩ := he
  obtain ⟨r, hr, hrun, hjob⟩ := (h.now.linked hk.linked).event_run e' he'
  exact ⟨r, hr, hrun.trans hs.runId, hjob.trans hs.jobId⟩

/-- A job that was cancelled when it was loaded is cancelled. -/
theorem Job.Since.cancelled {j : Job} (h : c.Since j) (hlife : j.Lifecycle)
    (hc : c.cancelledAt.isSome = true) : j.state = .cancelled := by
  rcases h with rfl | ⟨-, now, rfl | rfl⟩
  · exact hlife.cancelled.mpr hc
  · exact hlife.cancelled.mpr hc
  · rfl

/-- Part (a) of the body. -/
theorem continueRecurring_keeps (hτ : τ.Stable) (hc : k.creates = false)
    (hcont : Continues τ libs k e) (hterminal : e.eventType.terminal = true) {g : Site}
    (hk : g.Kept τ libs k) (hs : g.ses.saved = none) (hcoh : Coherent g.committed g.seq)
    (he : ∃ e' ∈ g.view.events, e.SameEvent e') (hcl : c ∈ g.ses.loaded)
    (hcid : c.jobId = e.jobId) :
    (continueRecurring libs e (some c)).wp (amongOthers τ libs k) (fun _ _ => True)
      (fun _ g' => g.Reaches τ libs k g' ∧ τ.cont g'.view e) g := by
  obtain ⟨run, hrun, -, hrj⟩ := hk.run_of_event hcoh he
  obtain ⟨j, hj, hjr⟩ := (hk.now.linked hcoh.linked).run_job run hrun
  have hid : j.jobId = e.jobId := hjr.trans hrj
  have hrow : c.Since j := hk.row_of_entity hcoh hc hcl hj (hid.trans hcid.symm)
  unfold continueRecurring
  dsimp only
  cases hcron : c.cronExpr with
  | none =>
    refine ⟨⟨.refl g, hk, hs⟩, hcont.ended _ he ⟨j, hj, hid, .inl ?_⟩⟩
    rw [← since_aging.cronExpr hrow, hcron]
  | some cron =>
    unfold materializeRecurringSuccessor
    dsimp only
    by_cases hcan : c.cancelledAt.isSome = true
    · rw [if_pos hcan]
      refine ⟨⟨.refl g, hk, hs⟩, hcont.ended _ he ⟨j, hj, hid, .inr ?_⟩⟩
      exact hrow.cancelled ((hk.now.linked hcoh.linked).lifecycle j hj) hcan
    · rw [if_neg hcan, Program.wp_bind]
      refine among_selectRuns hτ hk fun g₁ he₁ hk₁ => ?_
      split
      · next prev hprev =>
        have hmem : prev ∈ g₁.view.runs ∧ prev.runId = e.runId ∧ prev.jobId = c.jobId := by
          have : prev ∈ g₁.view.runs.filter fun r => r.runId == e.runId && r.jobId == c.jobId := by
            rw [hprev]
            exact List.mem_cons_self
          simpa only [List.mem_filter, Bool.and_eq_true, beq_iff_eq] using this
        have hevent₁ := (persists_event e).later hτ he₁.later hk hk₁ he
        rw [Program.wp_bind]
        unfold materializeSuccessor
        dsimp only
        generalize hzone : (if c.timezone = "" then "UTC" else c.timezone) = zone
        split
        · -- the exception passes through the savepoint
          unfold beginNested
          simp only [Program.wp_bind]
          exact among_savepoint hτ hk₁ fun _ _ _ => trivial
        · cases hnext : nextAfter libs cron zone (successorAnchor prev e.occurredAt) with
          | none =>
            unfold beginNested
            simp only [Program.wp_bind]
            exact among_savepoint hτ hk₁ fun _ _ _ => trivial
          | some runAt =>
            refine among_beginNested_spawnRun hτ hk₁ (P := fun t => τ.cont t e)
              ⟨hcont.persists, ?_, ?_, ?_, ?_⟩ fun res g' hr hP => ?_
            · obtain ⟨j, hj, hjs⟩ := hk₁.now.entities c (he₁.ses ▸ hcl)
              exact ⟨j, hj, hjs.jobId, hjs.userId⟩
            · intro g₂ hl₂ hk₂ _ row hrow hwait hat
              obtain ⟨e', he', hse⟩ := (persists_event e).later hτ hl₂ hk₁ hk₂ hevent₁
              obtain ⟨prev', hprev', hsp⟩ :=
                (persists_run prev).later hτ hl₂ hk₁ hk₂ ⟨prev, hmem.1, .refl _⟩
              refine .successor (hl₂.loaded c (he₁.ses ▸ hcl)) hrow.symm (by simpa using hcan) hcron
                hwait he' (hse.eventType ▸ hterminal) hprev'
                (by rw [hsp.runId, hmem.2.1, hse.runId]) (hsp.jobId.trans hmem.2.2) ?_
              rw [successorAnchor, hsp.scheduledAt, hse.occurredAt, hat, Job.zone, hzone]
              exact hnext
            · intro g₂ hl₂ hk₂ hcoh₂ hinv₂ hex
              exact hcont.busy g₂ hk₂ hcoh₂ hinv₂
                ((persists_event e).later hτ hl₂ hk₁ hk₂ hevent₁) (hcid ▸ hex)
            · intro g₂ hl₂ hk₂ x hx hxj hcase
              obtain ⟨prev', hprev', hsp⟩ :=
                (persists_run prev).later hτ hl₂ hk₁ hk₂ ⟨prev, hmem.1, .refl _⟩
              rcases hcase with ⟨-, -, hat⟩ | ⟨hsome, -⟩
              · refine hcont.tick _ prev' x cron zone
                  ((persists_event e).later hτ hl₂ hk₁ hk₂ hevent₁) hprev' hx
                  (hsp.runId.trans hmem.2.1) (hsp.jobId.trans (hmem.2.2.trans hcid))
                  (hxj.trans hcid) ?_
                rw [successorAnchor, hsp.scheduledAt, hat]
                exact hnext
              · cases hsome
            · have hr' : g.Reaches τ libs k g' := ⟨he₁.later.trans hr.later, hr.kept, hr.saved⟩
              exact ⟨hr', hP⟩
      · trivial

/-- The event of a run that is in the table. -/
theorem insertEvent_keeps (hτ : τ.Stable) {g : Site} (hk : g.Kept τ libs k)
    (hs : g.ses.saved = none) {runId jobId : Nat} {type : EventType}
    {statusFrom statusTo : Option RunStatus} {data : Option EventData}
    (hrun : ∃ r ∈ g.view.runs, r.runId = runId ∧ r.jobId = jobId)
    (htype : type.terminal = true → runId ∈ g.ses.held.runs ∧ ¬τ.final) :
    (Txn.insertEvent (.new runId jobId type statusFrom statusTo data)).wp (amongOthers τ libs k)
      (fun _ _ => True) (fun _ g' => g.Reaches τ libs k g') g := by
  refine among_insertEvent hτ hk fun g₁ he₁ hk₁ => ⟨⟨?_, fun h => ?_⟩, fun hk₂ => ?_⟩
  · obtain ⟨r, hr, hrid, hrj⟩ := hrun
    obtain ⟨r', hr', hsr⟩ := (persists_run r).later hτ he₁.later hk hk₁ ⟨r, hr, .refl r⟩
    exact ⟨r', hr', hsr.runId.trans hrid, hsr.jobId.trans hrj⟩
  · exact ⟨he₁.ses ▸ (htype h).1, fun hf => absurd hf (htype h).2⟩
  · exact ⟨he₁.later.trans ((Site.Later.write g₁ _).trans (.nextEvent _)), hk₂,
      (congrArg Session.saved he₁.ses).trans hs⟩

/-- An audit event of the consumer. -/
theorem insertAudit_keeps (hτ : τ.Stable) {g : Site} (hk : g.Kept τ libs k)
    (hs : g.ses.saved = none) (he : ∃ e' ∈ g.view.events, e.SameEvent e') {type : EventType}
    (htype : type.terminal = false) (data : Option EventData) :
    (Txn.insertEvent (.new e.runId e.jobId type none none data)).wp (amongOthers τ libs k)
      (fun _ _ => True) (fun _ g' => g.Reaches τ libs k g') g := by
  refine among_insertEvent hτ hk fun g₁ he₁ hk₁ => ⟨⟨?_, fun h => ?_⟩, fun hk₂ => ?_⟩
  · exact hk₁.run_of_event (e := e) he₁.coherent
      ((persists_event e).later hτ he₁.later hk hk₁ he)
  · exact absurd (htype.symm.trans h) (by simp)
  · exact ⟨he₁.later.trans ((Site.Later.write g₁ _).trans (.nextEvent _)), hk₂,
      (congrArg Session.saved he₁.ses).trans hs⟩

/-- One downstream. -/
theorem materializeOne_keeps (hτ : τ.Stable) (hterminal : e.eventType.terminal = true) {d : Job}
    {g : Site} (hk : g.Kept τ libs k) (hs : g.ses.saved = none)
    (he : ∃ e' ∈ g.view.events, e.SameEvent e') (hcl : c ∈ g.ses.loaded) (hcid : c.jobId = e.jobId)
    (hlive : c.state ≠ .cancelled) (hd : d ∈ g.ses.loaded) (hactive : d.state = .active)
    (hchild : d.triggerOnJobId = some e.jobId) :
    (materializeOne e d).wp (amongOthers τ libs k) (fun _ _ => True)
      (fun _ g' => g.Reaches τ libs k g') g := by
  unfold materializeOne
  split
  · exact insertAudit_keeps hτ hk hs he rfl _
  · rw [Program.wp_bind]
    refine among_beginNested_spawnRun hτ hk (P := fun _ => True)
      ⟨persists_true, ?_, ?_, fun _ _ _ _ _ _ => trivial, fun _ _ _ _ _ _ _ => trivial⟩
      fun res g' hr _ => ?_
    · obtain ⟨j, hj, hjs⟩ := hk.now.entities d hd
      exact ⟨j, hj, hjs.jobId, hjs.userId⟩
    · intro g₁ hl₁ hk₁ _ row hrow hwait hat
      obtain ⟨e', he', hse⟩ := (persists_event e).later hτ hl₁ hk hk₁ he
      exact .upstream (hl₁.loaded d hd) hrow.symm hactive (hse.jobId ▸ hchild) (hl₁.loaded c hcl)
        (hcid.trans hse.jobId.symm) hlive he' (hse.eventType ▸ hterminal) (hse.runId ▸ hwait)
        (hat.trans hse.occurredAt.symm)
    · split
      · refine Program.wp_mono (insertAudit_keeps hτ hr.kept hr.saved
          ((persists_event e).later hτ hr.later hk hr.kept he) rfl _) fun _ g'' h => hr.trans h
      · exact hr

/-- The body of the consumer for an event that is in the table. -/
theorem processEvent_keeps (hτ : τ.Stable) (hc : k.creates = false) (hcont : Continues τ libs k e)
    (hterminal : e.eventType.terminal = true) (now : Int) (depth : Nat) {g : Site}
    (hk : g.Kept τ libs k) (hs : g.ses.saved = none)
    (he : ∃ e' ∈ g.view.events, e.SameEvent e') :
    (processEvent libs now depth e).wp (amongOthers τ libs k) (fun _ _ => True)
      (fun _ g' => g.Reaches τ libs k g') g := by
  unfold processEvent
  rw [Program.wp_bind]
  refine among_loadJobs hτ hk hs (.inl hc) fun g₁ cs he₁ hk₁ hcs => ?_
  have hr₁ : g.Reaches τ libs k (g₁.load _) :=
    ⟨he₁.later.trans (.load g₁ _), hk₁, (congrArg Session.saved he₁.ses).trans hs⟩
  have hevent₁ := (persists_event e).later hτ hr₁.later hk hk₁ he
  have hcoh₁ : Coherent (g₁.load fun j => j.jobId == e.jobId).committed
      (g₁.load fun j => j.jobId == e.jobId).seq := he₁.coherent
  -- the event names a run, and the run names its job
  obtain ⟨run, hrun, -, hrj⟩ := hk₁.run_of_event hcoh₁ hevent₁
  obtain ⟨j, hj, hjj⟩ := (hk₁.now.linked hcoh₁.linked).run_job run hrun
  cases cs with
  | nil =>
    exfalso
    have hnil := List.forall₂_nil_left_iff.mp hcs
    have := List.filter_eq_nil_iff.mp hnil j hj
    simp [hjj, hrj] at this
  | cons c cs =>
    obtain ⟨r, rs, ⟨hcl, hcr⟩, -, hrows⟩ := List.forall₂_cons_left_iff.mp hcs
    have hcid : c.jobId = e.jobId := by
      have hmem : r ∈ g₁.view.jobs.filter fun j => j.jobId == e.jobId := by
        rw [hrows]
        exact List.mem_cons_self
      have := (List.mem_filter.mp hmem).2
      simp only [beq_iff_eq] at this
      exact hcr.jobId.symm.trans this
    simp only [List.head?_cons]
    rw [Program.wp_bind]
    refine Program.wp_mono (continueRecurring_keeps hτ hc hcont hterminal hk₁ hr₁.saved hcoh₁ hevent₁
      hcl hcid) ?_
    rintro _ g₂ ⟨hr₂, hcont₂⟩
    have hevent₂ := (persists_event e).later hτ hr₂.later hk₁ hr₂.kept hevent₁
    -- whatever part (b) leaves, the checks and the stamp follow
    have hrest : ∀ (ds : List Job) (g₃ : Site), g₂.Reaches τ libs k g₃ →
        (do
          let _ ← settleCheck now depth e.jobId
          ds.forM fun d => do
            let _ ← settleCheck now depth d.jobId
          Txn.updateEvents (fun x => x.eventId == e.eventId)
            (fun x => { x with processedBy := e.stampedBy now }) : Txn Unit).wp
          (amongOthers τ libs k) (fun _ _ => True) (fun _ g' => g.Reaches τ libs k g') g₃ := by
      intro ds g₃ hr₃
      rw [Program.wp_bind]
      refine Program.wp_mono (settleCheck_keeps hτ hc now depth e.jobId g₃ hr₃.kept hr₃.saved)
        fun _ g₄ hr₄ => ?_
      rw [Program.wp_bind]
      refine Program.wp_mono (Keeps.forM (fun d _ => (settleCheck_keeps hτ hc now depth d.jobId).bind
        fun _ => .ret _) g₄ hr₄.kept hr₄.saved) fun _ g₅ hr₅ => ?_
      have hr := (hr₃.trans hr₄).trans hr₅
      refine among_stamp hτ hr.kept (hcont.persists.later hτ hr.later hr₂.kept hr.kept hcont₂)
        fun g₆ ids he₆ hk₆ _ => ?_
      refine (hr₁.trans (hr₂.trans hr)).trans ⟨he₆.later.trans (.updateEvents g₆ ids _), hk₆, ?_⟩
      exact (congrArg Session.saved he₆.ses).trans hr.saved
    rw [Program.wp_bind]
    unfold continueChain
    split
    · exact hrest [] g₂ ⟨.refl g₂, hr₂.kept, hr₂.saved⟩
    · next hnot =>
      have hlive : c.state ≠ .cancelled := by simpa using hnot
      unfold materializeDownstreams
      rw [Program.wp_bind]
      refine among_loadJobs hτ hr₂.kept hr₂.saved (.inl hc) fun g₃ ds he₃ hk₃ hds => ?_
      have hr₃ : g₂.Reaches τ libs k (g₃.load _) :=
        ⟨he₃.later.trans (.load g₃ _), hk₃, (congrArg Session.saved he₃.ses).trans hr₂.saved⟩
      have hdown : ∀ d ∈ ds, d ∈ (g₃.load fun j => j.triggerOnJobId == some e.jobId &&
          j.state == .active).ses.loaded ∧ d.state = .active ∧
          d.triggerOnJobId = some e.jobId := by
        intro d hd
        obtain ⟨i, hi, rfl⟩ := List.mem_iff_getElem.mp hd
        obtain ⟨hlen, hget⟩ := List.forall₂_iff_get.mp hds
        obtain ⟨hdl, hdr⟩ := hget i hi (hlen ▸ hi)
        have hrow := (List.mem_filter.mp (List.getElem_mem (hlen ▸ hi))).2
        simp only [Bool.and_eq_true, beq_iff_eq] at hrow
        -- a row that is active now was so when it was loaded
        rcases hdr with heq | ⟨-, now', heq | heq⟩
        · simp only [List.get_eq_getElem] at heq hdl
          rw [heq] at hrow
          exact ⟨hdl, hrow.2, hrow.1⟩
        · simp only [List.get_eq_getElem] at heq
          rw [heq] at hrow
          cases hrow.2
        · simp only [List.get_eq_getElem] at heq
          rw [heq] at hrow
          cases hrow.2
      rw [Program.wp_bind]
      refine Program.wp_mono (Program.wp_forM (Q := fun _ g' => g₂.Reaches τ libs k g')
        (fun rest g' => (∀ d ∈ rest, d ∈ ds) ∧ g₂.Reaches τ libs k g' ∧
          Site.Later τ (g₃.load _) g') (fun d rest g' hI => ?_)
        (fun g' hI => hI.2.1) ds _ ⟨fun _ h => h, hr₃, .refl _⟩) fun _ g₄ hr₄ => hrest ds g₄ hr₄
      obtain ⟨hsub, hr', hl'⟩ := hI
      obtain ⟨hdl, hactive, hchild⟩ := hdown d (hsub d List.mem_cons_self)
      refine Program.wp_mono (materializeOne_keeps hτ hterminal hr'.kept hr'.saved
        ((persists_event e).later hτ hr'.later hr₂.kept hr'.kept hevent₂)
        (hr'.later.loaded c (hr₂.later.loaded c hcl)) hcid hlive (hl'.loaded d hdl) hactive hchild)
        fun _ g'' h'' => ?_
      exact ⟨fun x hx => hsub x (List.mem_cons_of_mem _ hx), hr'.trans h'', hl'.trans h''.later⟩

/-- `poll_once`. -/
theorem pollOnce_keeps (hτ : τ.Stable) (hc : k.creates = false)
    (hcont : ∀ e, Continues τ libs k e) (now : Int) (depth batchSize : Nat) :
    Keeps τ libs k (pollOnce libs now depth batchSize) := by
  intro g hk hs
  unfold pollOnce
  rw [Program.wp_bind]
  refine among_selectEvents hτ hk fun g₁ he₁ hk₁ => ?_
  have hmem : ∀ e ∈ ((g₁.view.events.filter RunEvent.unprocessed).insertionSort
      fun a b => a.eventId ≤ b.eventId).take batchSize,
      e ∈ g₁.view.events ∧ e.eventType.terminal = true := by
    intro e he
    have := List.mem_of_mem_take he
    rw [List.mem_insertionSort, List.mem_filter] at this
    refine ⟨this.1, ?_⟩
    have := this.2
    simp only [RunEvent.unprocessed, Bool.and_eq_true] at this
    exact this.1
  rw [Program.wp_bind]
  generalize ((g₁.view.events.filter RunEvent.unprocessed).insertionSort
      fun a b => a.eventId ≤ b.eventId).take batchSize = es at hmem
  refine Program.wp_forM (fun rest g' => (∀ e ∈ rest, e ∈ es) ∧ g₁.Reaches τ libs k g')
    (fun e rest g' hI => ?_) (fun g' hI => ?_) es g₁
    ⟨fun _ h => h, .refl g₁, hk₁, (congrArg Session.saved he₁.ses).trans hs⟩
  · obtain ⟨hsub, hr⟩ := hI
    obtain ⟨he, hterminal⟩ := hmem e (hsub e List.mem_cons_self)
    refine Program.wp_mono (processEvent_keeps hτ hc (hcont e) hterminal now depth hr.kept hr.saved
      ((persists_event e).later hτ hr.later hk₁ hr.kept ⟨e, he, .refl e⟩)) fun _ g'' h'' => ?_
    exact ⟨fun x hx => hsub x (List.mem_cons_of_mem _ hx), hr.trans h''⟩
  · exact ⟨he₁.later.trans hI.2.later, hI.2.kept, hI.2.saved⟩

end Body

end TaskScheduler
