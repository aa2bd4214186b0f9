import TaskScheduler.Interleave.Valid

/-! One transaction among others: what it can rely on between its statements, and the rule of each
statement. -/

namespace TaskScheduler

open Lib

/-! ### What a session keeps -/

/-- The writes of a session are valid on the committed tables, its entities are earlier versions of
rows, and the rows that it has locked exist. -/
structure Kept (τ : Terms) (libs : Libs) (k : Kind) (writes : List Write) (held : Held)
    (loaded : List Job) (t : Tables) : Prop where
  replays : Replays Write.apply (Valid τ libs k held loaded) writes t
  entities : ∀ c ∈ loaded, ∃ j ∈ (Write.applyAll writes t).jobs, c.Since j
  held_jobs : ∀ id ∈ held.jobs, ∃ j ∈ (Write.applyAll writes t).jobs, j.jobId = id
  held_runs : ∀ id ∈ held.runs, ∃ r ∈ (Write.applyAll writes t).runs, r.runId = id

/-- What other transactions do keeps `cont`. -/
def Terms.Stable (τ : Terms) : Prop :=
  ∀ held t t' e, Others τ.calm held t t' → τ.cont t e → τ.cont t' e

namespace Kept

variable {τ : Terms} {libs : Libs} {k : Kind} {writes : List Write} {held : Held} {loaded : List Job}
  {t t' : Tables}

theorem stable (h : Kept τ libs k writes held loaded t) (hτ : τ.Stable)
    (ho : Others τ.calm held t t') : Kept τ libs k writes held loaded t' ∧
      Others τ.calm held (Write.applyAll writes t) (Write.applyAll writes t') := by
  obtain ⟨hreplays, hview⟩ := h.replays.stable
    (fun t t' w ho hw => ⟨hw.stable hτ ho, ho.apply hw⟩) ho
  refine ⟨⟨hreplays, fun c hc => ?_, fun id hid => ?_, fun id hid => ?_⟩, hview⟩
  · obtain ⟨j, hj, hs⟩ := h.entities c hc
    obtain ⟨j', hj', hs', -⟩ := hview.jobs j hj
    exact ⟨j', hj', since_aging.trans hs hs'⟩
  · obtain ⟨j, hj, hid⟩ := h.held_jobs id hid
    obtain ⟨j', hj', hs', -⟩ := hview.jobs j hj
    exact ⟨j', hj', hs'.jobId.trans hid⟩
  · obtain ⟨r, hr, hid⟩ := h.held_runs id hid
    obtain ⟨r', hr', hs', -⟩ := hview.runs r hr
    exact ⟨r', hr', hs'.runId.trans hid⟩

theorem linked (h : Kept τ libs k writes held loaded t) (hl : Linked t) :
    Linked (Write.applyAll writes t) :=
  h.replays.invariant (fun _ _ _ hl hw => hl.apply hw) hl

/-- Only a creation adds jobs. -/
theorem jobKeys (h : Kept τ libs k writes held loaded t) (hk : k.creates = false) :
    (Write.applyAll writes t).jobs.map (·.jobId) = t.jobs.map (·.jobId) := by
  refine h.replays.invariant (P := fun t' => t'.jobs.map (·.jobId) = t.jobs.map (·.jobId))
    (fun t' w _ heq hw => ?_) rfl
  cases w with
  | insertJob row =>
    have := hw.1
    rw [hk] at this
    cases this
  | updateJobs ids set =>
    simp only [Write.apply]
    rw [← heq]
    refine map_key_eq fun j _ => ?_
    split
    · exact (sameDef_set hw.2.2.1 j).1
    · rfl
  | _ => exact heq

/-- One more valid write. -/
theorem write (h : Kept τ libs k writes held loaded t) {held' : Held} (hle : held.le held') {w : Write}
    (hw : Valid τ libs k held' loaded (Write.applyAll writes t) w)
    (hjobs : ∀ id ∈ held'.jobs, ∃ j ∈ (Write.applyAll writes t).jobs, j.jobId = id)
    (hruns : ∀ id ∈ held'.runs, ∃ r ∈ (Write.applyAll writes t).runs, r.runId = id) :
    Kept τ libs k (writes ++ [w]) held' loaded t := by
  have hjob : ∀ j ∈ (Write.applyAll writes t).jobs,
      ∃ j' ∈ (w.apply (Write.applyAll writes t)).jobs, j.Since j' := by
    intro j hj
    cases w with
    | insertJob row => exact ⟨j, List.mem_append_left _ hj, .inl rfl⟩
    | updateJobs ids set =>
      refine ⟨_, List.mem_map.mpr ⟨j, hj, rfl⟩, ?_⟩
      split
      · next hin =>
        obtain ⟨-, -, ⟨now, hset⟩, hrows⟩ := hw
        refine .inr ⟨(hrows j hj hin).1, now, ?_⟩
        rcases hset with rfl | rfl
        · exact .inl rfl
        · exact .inr rfl
      · exact .inl rfl
    | _ => exact ⟨j, hj, .inl rfl⟩
  have hrun : ∀ r ∈ (Write.applyAll writes t).runs,
      ∃ r' ∈ (w.apply (Write.applyAll writes t)).runs, r'.runId = r.runId := by
    intro r hr
    cases w with
    | insertRun row => exact ⟨r, List.mem_append_left _ hr, rfl⟩
    | updateRuns ids set =>
      refine ⟨_, List.mem_map.mpr ⟨r, hr, rfl⟩, ?_⟩
      split
      · exact (hw.1 r).runId
      · rfl
    | _ => exact ⟨r, hr, rfl⟩
  have happ : Write.applyAll (writes ++ [w]) t = w.apply (Write.applyAll writes t) := by simp
  refine ⟨(h.replays.mono fun _ _ hv => hv.mono hle fun _ hc => hc).append hw, fun c hc => ?_,
    fun id hid => ?_, fun id hid => ?_⟩
  · obtain ⟨j, hj, hs⟩ := h.entities c hc
    obtain ⟨j', hj', hs'⟩ := hjob j hj
    rw [happ]
    exact ⟨j', hj', since_aging.trans hs hs'⟩
  · obtain ⟨j, hj, hid⟩ := hjobs id hid
    obtain ⟨j', hj', hs'⟩ := hjob j hj
    rw [happ]
    exact ⟨j', hj', hs'.jobId.trans hid⟩
  · obtain ⟨r, hr, hid⟩ := hruns id hid
    obtain ⟨r', hr', hs'⟩ := hrun r hr
    rw [happ]
    exact ⟨r', hr', hs'.trans hid⟩

end Kept

namespace Site

/-- What holds of the session of a transaction of kind `k`, now and if it goes back to its
savepoint. -/
structure Kept (τ : Terms) (libs : Libs) (k : Kind) (g : Site) : Prop where
  now : TaskScheduler.Kept τ libs k g.ses.writes g.ses.held g.ses.loaded g.committed
  saved : ∀ ws held, g.ses.saved = some (ws, held) → held.le g.ses.held ∧
    TaskScheduler.Kept τ libs k ws held g.ses.loaded g.committed

/-- What other transactions may do between two statements.  The key of a job that the session has
inserted is not given twice. -/
structure Env (τ : Terms) (g g' : Site) : Prop where
  ses : g'.ses = g.ses
  seq : g.seq.le g'.seq
  others : Others τ.calm g.ses.held g.committed g'.committed
  coherent : Coherent g'.committed g'.seq
  inv : τ.inv g'.committed
  fresh : ∀ row, .insertJob row ∈ g'.ses.writes → ∀ j ∈ g'.committed.jobs, j.jobId ≠ row.jobId

variable {τ : Terms} {libs : Libs} {k : Kind} {g g' g'' : Site}

theorem Env.trans (h : Env τ g g') (h' : Env τ g' g'') : Env τ g g'' :=
  ⟨h'.ses.trans h.ses, Seq.le_trans h.seq h'.seq, h.others.trans (h.ses ▸ h'.others), h'.coherent,
    h'.inv, h'.fresh⟩

theorem Kept.env (h : g.Kept τ libs k) (hτ : τ.Stable) (he : Env τ g g') :
    g'.Kept τ libs k ∧ Others τ.calm g.ses.held g.view g'.view := by
  obtain ⟨hnow, hview⟩ := h.now.stable hτ he.others
  refine ⟨⟨he.ses ▸ hnow, fun ws held hs => ?_⟩, ?_⟩
  · rw [he.ses] at hs ⊢
    obtain ⟨hle, hk⟩ := h.saved ws held hs
    exact ⟨hle, (hk.stable hτ (he.others.mono hle)).1⟩
  · unfold Site.view
    rw [he.ses]
    exact hview

/-- The state of a transaction some statements later: it has made more writes and holds more
locks. -/
structure Later (τ : Terms) (g g' : Site) : Prop where
  others : Others τ.calm g.ses.held g.committed g'.committed
  writes : ∃ ws, g'.ses.writes = g.ses.writes ++ ws
  held : g.ses.held.le g'.ses.held
  loaded : ∀ c ∈ g.ses.loaded, c ∈ g'.ses.loaded
  seq : g.seq.le g'.seq

theorem Later.refl (g : Site) : Later τ g g :=
  ⟨.refl _, ⟨[], by simp⟩, .refl _, fun _ h => h, g.seq.le_refl⟩

theorem Later.trans (h : Later τ g g') (h' : Later τ g' g'') : Later τ g g'' := by
  obtain ⟨ws, hws⟩ := h.writes
  obtain ⟨ws', hws'⟩ := h'.writes
  exact ⟨h.others.trans (h'.others.mono h.held), ⟨ws ++ ws', by rw [hws', hws, List.append_assoc]⟩,
    h.held.trans h'.held, fun c hc => h'.loaded c (h.loaded c hc), Seq.le_trans h.seq h'.seq⟩

theorem Env.later (h : Env τ g g') : Later τ g g' :=
  ⟨h.others, ⟨[], by rw [h.ses]; simp⟩, h.ses ▸ .refl _, fun c hc => h.ses ▸ hc, h.seq⟩

/-- What other transactions and the session's own writes keep holds later on. -/
theorem Later.persist {P : Tables → Prop} (h : Later τ g g') (hk : g.Kept τ libs k)
    (hk' : g'.Kept τ libs k) (hτ : τ.Stable)
    (hothers : ∀ held t t', Others τ.calm held t t' → P t → P t')
    (hwrite : ∀ held loaded t w, Valid τ libs k held loaded t w → P t → P (w.apply t))
    (hP : P g.view) : P g'.view := by
  obtain ⟨ws, hws⟩ := h.writes
  have hview := (hk.now.stable hτ h.others).2
  have hmid := hothers _ _ _ hview hP
  have hreplays := hk'.now.replays
  rw [hws] at hreplays
  have hsplit : ∀ (vs : List Write) (t : Tables), Replays Write.apply
      (Valid τ libs k g'.ses.held g'.ses.loaded) (vs ++ ws) t →
      Replays Write.apply (Valid τ libs k g'.ses.held g'.ses.loaded) ws (Write.applyAll vs t) := by
    intro vs
    induction vs with
    | nil => exact fun _ h => h
    | cons v vs ih => exact fun t h => ih _ h.2
  have hend := (hsplit _ _ hreplays).invariant
    (fun t w _ hP hw => hwrite _ _ t w hw hP) hmid
  unfold Site.view Session.view
  rw [hws, Write.applyAll_append]
  exact hend

end Site

/-! ### The statements among others -/

/-- The statements of a transaction, as the database executes them. -/
def siteAccount (τ : Terms) : Account Stmt Reply Site where
  may _ _ := True
  next s g r g' := τ.cond s g ∧ g'.committed = g.committed ∧
    ∃ pick others, s.exec pick others g.committed (g.seq, g.ses) = some (r, g'.seq, g'.ses)

/-- The statements of a transaction of kind `k` among other transactions. -/
def amongOthers (τ : Terms) (libs : Libs) (k : Kind) : Account Stmt Reply Site :=
  (siteAccount τ).among (Site.Env τ) (Site.Kept τ libs k)

namespace Site

/-- The site with another session. -/
def on (g : Site) (ses : Session) : Site := { g with ses := ses }

def load (g : Site) (p : Job → Bool) : Site :=
  g.on { g.ses with
    loaded := g.ses.loaded ++ (g.view.jobs.filter p).filter fun r => !g.ses.isLoaded r }

def lock (g : Site) (key : Nat) : Site :=
  g.on { g.ses with held := { g.ses.held with advisory := key :: g.ses.held.advisory } }

def lockRows (g : Site) (runs : List JobRun) : Site :=
  g.on { g.ses with held := { g.ses.held with runs := runs.map (·.runId) ++ g.ses.held.runs } }

def save (g : Site) : Site := g.on { g.ses with saved := some (g.ses.writes, g.ses.held) }

def release (g : Site) : Site := g.on { g.ses with saved := none }

def back (g : Site) (ws : List Write) (held : Held) : Site :=
  g.on { g.ses with writes := ws, held := held, saved := none }

def write (g : Site) (w : Write) : Site := g.on (g.ses.write w)

def updateJobs (g : Site) (ids : List Nat) (set : Job → Job) : Site :=
  g.on { g.ses.write (.updateJobs ids set) with
    held := { g.ses.held with jobs := ids ++ g.ses.held.jobs } }

def updateRuns (g : Site) (ids : List Nat) (set : JobRun → JobRun) : Site :=
  g.on { g.ses.write (.updateRuns ids set) with
    held := { g.ses.held with runs := ids ++ g.ses.held.runs } }

def updateEvents (g : Site) (ids : List Nat) (set : RunEvent → RunEvent) : Site :=
  g.on { g.ses.write (.updateEvents ids set) with
    held := { g.ses.held with events := ids ++ g.ses.held.events } }

def nextJob (g : Site) : Site := { g with seq := { g.seq with jobs := g.seq.jobs + 1 } }

def nextRun (g : Site) : Site := { g with seq := { g.seq with runs := g.seq.runs + 1 } }

def nextEvent (g : Site) : Site := { g with seq := { g.seq with events := g.seq.events + 1 } }

end Site

section Rules

variable {τ : Terms} {libs : Libs} {k : Kind} {E : Err → Site → Prop} {g : Site}

/-- The rule of every statement: other transactions act, and then it is executed. -/
theorem among_stmt {α : Type} {Q : α → Site → Prop} (hτ : τ.Stable) (h : g.Kept τ libs k) {s : Stmt}
    {rest : Reply s → Txn α}
    (hs : ∀ g₁, g.Env τ g₁ → g₁.Kept τ libs k → τ.cond s g₁ → ∀ pick others r seq ses,
      s.exec pick others g₁.committed (g₁.seq, g₁.ses) = some (r, seq, ses) →
      Site.Kept τ libs k ⟨g₁.committed, seq, ses⟩ ∧
        (rest r).wp (amongOthers τ libs k) E Q ⟨g₁.committed, seq, ses⟩) :
    (Program.op s rest : Txn α).wp (amongOthers τ libs k) E Q g := by
  refine Program.wp_among fun g₁ he => ⟨trivial, ?_⟩
  rintro r ⟨_, seq, ses⟩ ⟨hcond, rfl, pick, others, hexec⟩
  exact hs g₁ he (h.env hτ he).1 hcond pick others r seq ses hexec

theorem among_selectJobs {Q : List Job → Site → Prop} (hτ : τ.Stable) (h : g.Kept τ libs k)
    {p : Job → Bool}
    (hQ : ∀ g₁, g.Env τ g₁ → g₁.Kept τ libs k → Q (g₁.view.jobs.filter p) g₁) :
    (Txn.selectJobs p).wp (amongOthers τ libs k) E Q g := by
  refine among_stmt hτ h fun g₁ he hk _ pick others r seq ses hexec => ?_
  cases hexec
  exact ⟨hk, hQ g₁ he hk⟩

theorem among_ancestors {Q : Option Nat × Bool → Site → Prop} (hτ : τ.Stable)
    (h : g.Kept τ libs k) {first limit : Nat}
    (hQ : ∀ g₁, g.Env τ g₁ → g₁.Kept τ libs k → Q (ancestorsOf g₁.view.jobs first limit) g₁) :
    (Txn.ancestors first limit).wp (amongOthers τ libs k) E Q g := by
  refine among_stmt hτ h fun g₁ he hk _ pick others r seq ses hexec => ?_
  cases hexec
  exact ⟨hk, hQ g₁ he hk⟩

theorem among_selectRuns {Q : List JobRun → Site → Prop} (hτ : τ.Stable) (h : g.Kept τ libs k)
    {p : JobRun → Bool}
    (hQ : ∀ g₁, g.Env τ g₁ → g₁.Kept τ libs k → Q (g₁.view.runs.filter p) g₁) :
    (Txn.selectRuns p).wp (amongOthers τ libs k) E Q g := by
  refine among_stmt hτ h fun g₁ he hk _ pick others r seq ses hexec => ?_
  cases hexec
  exact ⟨hk, hQ g₁ he hk⟩

theorem among_selectEvents {Q : List RunEvent → Site → Prop} (hτ : τ.Stable) (h : g.Kept τ libs k)
    {p : RunEvent → Bool} {limit : Nat}
    (hQ : ∀ g₁, g.Env τ g₁ → g₁.Kept τ libs k →
      Q (((g₁.view.events.filter p).insertionSort fun a b => a.eventId ≤ b.eventId).take limit) g₁) :
    (Txn.selectEvents p limit).wp (amongOthers τ libs k) E Q g := by
  refine among_stmt hτ h fun g₁ he hk _ pick others r seq ses hexec => ?_
  cases hexec
  exact ⟨hk, hQ g₁ he hk⟩

/-- Only a creation that has inserted its job sees jobs with no key of their own. -/
theorem Site.Kept.jobs_nodup (h : g.Kept τ libs k) (hk : Coherent g.committed g.seq)
    (hone : k.creates = false ∨ g.ses.writes = []) : (g.view.jobs.map (·.jobId)).Nodup := by
  rcases hone with hc | hw
  · unfold Site.view Session.view
    rw [h.now.jobKeys hc]
    exact hk.jobs.nodup
  · unfold Site.view Session.view
    rw [hw]
    exact hk.jobs.nodup

/-- The entity for a row is an earlier version of it. -/
theorem Site.Kept.entity (h : g.Kept τ libs k) (hnd : (g.view.jobs.map (·.jobId)).Nodup) {r : Job}
    (hr : r ∈ g.view.jobs) : (g.ses.entity r).Since r := by
  unfold Session.entity
  cases hf : g.ses.loaded.find? fun c => c.jobId == r.jobId with
  | none => exact .inl rfl
  | some c =>
    have hid := List.find?_some hf
    simp only [beq_iff_eq] at hid
    obtain ⟨j, hj, hs⟩ := h.now.entities c (List.mem_of_find?_eq_some hf)
    rwa [Option.getD_some, ← List.inj_on_of_nodup_map hnd hj hr (hs.jobId.trans hid)]

theorem among_loadJobs {Q : List Job → Site → Prop} (hτ : τ.Stable) (h : g.Kept τ libs k)
    (hsaved : g.ses.saved = none) (hone : k.creates = false ∨ g.ses.writes = []) {p : Job → Bool}
    (hQ : ∀ g₁ cs, g.Env τ g₁ → (g₁.load p).Kept τ libs k →
      List.Forall₂ (fun c r => c ∈ (g₁.load p).ses.loaded ∧ c.Since r) cs (g₁.view.jobs.filter p) →
      Q cs (g₁.load p)) :
    (Txn.loadJobs p).wp (amongOthers τ libs k) E Q g := by
  refine among_stmt hτ h fun g₁ he hk _ pick others r seq ses hexec => ?_
  cases hexec
  have hnd := hk.jobs_nodup he.coherent (he.ses ▸ hone)
  have hkept : (g₁.load p).Kept τ libs k := by
    refine ⟨⟨hk.now.replays.mono fun _ _ hv => hv.mono (.refl _) fun c hc =>
      List.mem_append_left _ hc, fun c hc => ?_, hk.now.held_jobs, hk.now.held_runs⟩,
      fun ws held hs => ?_⟩
    · rcases List.mem_append.mp hc with hc | hc
      · exact hk.now.entities c hc
      · exact ⟨c, (List.mem_filter.mp (List.mem_filter.mp hc).1).1, .inl rfl⟩
    · have : g₁.ses.saved = some (ws, held) := hs
      rw [he.ses, hsaved] at this
      cases this
  refine ⟨hkept, hQ g₁ _ he hkept ?_⟩
  rw [List.forall₂_map_left_iff]
  refine List.forall₂_same.mpr fun r hr => ⟨?_, hk.entity hnd (List.mem_filter.mp hr).1⟩
  cases hf : g₁.ses.loaded.find? fun c => c.jobId == r.jobId with
  | none =>
    have hent : g₁.ses.entity r = r := by rw [Session.entity, hf]; rfl
    rw [hent]
    refine List.mem_append_right _ (List.mem_filter.mpr ⟨hr, ?_⟩)
    simp only [Session.isLoaded, Bool.not_eq_true', List.any_eq_false]
    exact List.find?_eq_none.mp hf
  | some c =>
    have hent : g₁.ses.entity r = c := by rw [Session.entity, hf]; rfl
    rw [hent]
    exact List.mem_append_left _ (List.mem_of_find?_eq_some hf)

theorem Site.Kept.moreLocks (h : g.Kept τ libs k) {held : Held} (hle : g.ses.held.le held)
    (hjobs : ∀ id ∈ held.jobs, id ∈ g.ses.held.jobs)
    (hruns : ∀ id ∈ held.runs, ∃ r ∈ g.view.runs, r.runId = id) :
    (g.on { g.ses with held := held }).Kept τ libs k := by
  refine ⟨⟨h.now.replays.mono fun _ _ hv => hv.mono hle fun _ hc => hc, h.now.entities,
    fun id hid => h.now.held_jobs id (hjobs id hid), hruns⟩, fun ws held' hs => ?_⟩
  obtain ⟨hle', hkept⟩ := h.saved ws held' hs
  exact ⟨hle'.trans hle, hkept⟩

theorem among_advisoryLock {Q : Unit → Site → Prop} (hτ : τ.Stable) (h : g.Kept τ libs k) {key : Nat}
    (hQ : ∀ g₁, g.Env τ g₁ → (g₁.lock key).Kept τ libs k → Q () (g₁.lock key)) :
    (Txn.advisoryLock key).wp (amongOthers τ libs k) E Q g := by
  refine among_stmt hτ h fun g₁ he hk _ pick others r seq ses hexec => ?_
  simp only [Stmt.exec] at hexec
  split at hexec
  · cases hexec
  · cases hexec
    have hkept : (g₁.lock key).Kept τ libs k := by
      refine hk.moreLocks ⟨fun id hid => List.mem_cons_of_mem _ hid, fun _ h => h, fun _ h => h⟩
        (fun _ h => h) hk.now.held_runs
    exact ⟨hkept, hQ g₁ he hkept⟩

theorem among_lockRuns {Q : List JobRun → Site → Prop} (hτ : τ.Stable) (h : g.Kept τ libs k)
    {p : JobRun → Bool} {limit : Nat}
    (hQ : ∀ g₁ rows, g.Env τ g₁ → (g₁.lockRows rows).Kept τ libs k →
      List.Sublist rows (g₁.view.runs.filter p) → Q rows (g₁.lockRows rows)) :
    (Txn.lockRuns p limit).wp (amongOthers τ libs k) E Q g := by
  refine among_stmt hτ h fun g₁ he hk _ pick others r seq ses hexec => ?_
  cases hexec
  have hlocked : ∀ rows, List.Sublist rows (g₁.view.runs.filter p) →
      (g₁.lockRows rows).Kept τ libs k := by
    intro rows hsub
    refine hk.moreLocks ⟨fun _ h => h, fun _ h => h, fun id hid => List.mem_append_right _ hid⟩
      (fun _ h => h) fun id hid => ?_
    rcases List.mem_append.mp hid with hid | hid
    · obtain ⟨r, hr, rfl⟩ := List.mem_map.mp hid
      exact ⟨r, (List.mem_filter.mp (hsub.subset hr)).1, rfl⟩
    · exact hk.now.held_runs id hid
  have hsub : List.Sublist ((g₁.view.runs.filter fun r =>
      p r && pick r.runId && !others.any (·.locksRun r.runId)).take limit)
      (g₁.view.runs.filter p) := by
    refine (List.take_sublist _ _).trans (List.monotone_filter_right _ fun r hr => ?_)
    simp only [Bool.and_eq_true] at hr
    exact hr.1.1
  exact ⟨hlocked _ hsub, hQ g₁ _ he (hlocked _ hsub) hsub⟩

theorem among_savepoint {Q : Unit → Site → Prop} (hτ : τ.Stable) (h : g.Kept τ libs k)
    (hQ : ∀ g₁, g.Env τ g₁ → g₁.save.Kept τ libs k → Q () g₁.save) :
    Txn.savepoint.wp (amongOthers τ libs k) E Q g := by
  refine among_stmt hτ h fun g₁ he hk _ pick others r seq ses hexec => ?_
  cases hexec
  have hkept : g₁.save.Kept τ libs k := by
    refine ⟨hk.now, fun ws held hs => ?_⟩
    cases hs
    exact ⟨.refl _, hk.now⟩
  exact ⟨hkept, hQ g₁ he hkept⟩

theorem among_release {Q : Unit → Site → Prop} (hτ : τ.Stable) (h : g.Kept τ libs k)
    (hQ : ∀ g₁, g.Env τ g₁ → g₁.release.Kept τ libs k → Q () g₁.release) :
    Txn.release.wp (amongOthers τ libs k) E Q g := by
  refine among_stmt hτ h fun g₁ he hk _ pick others r seq ses hexec => ?_
  cases hexec
  have hkept : g₁.release.Kept τ libs k := ⟨hk.now, fun ws held hs => by cases hs⟩
  exact ⟨hkept, hQ g₁ he hkept⟩

theorem among_rollbackTo {Q : Unit → Site → Prop} (hτ : τ.Stable) (h : g.Kept τ libs k)
    {ws : List Write} {held : Held} (hsaved : g.ses.saved = some (ws, held))
    (hQ : ∀ g₁, g.Env τ g₁ → (g₁.back ws held).Kept τ libs k → Q () (g₁.back ws held)) :
    Txn.rollbackTo.wp (amongOthers τ libs k) E Q g := by
  refine among_stmt hτ h fun g₁ he hk _ pick others r seq ses hexec => ?_
  have hs₁ : g₁.ses.saved = some (ws, held) := by rw [he.ses, hsaved]
  simp only [Stmt.exec, hs₁] at hexec
  cases hexec
  have hkept : (g₁.back ws held).Kept τ libs k :=
    ⟨(hk.saved ws held hs₁).2, fun ws held hs => by cases hs⟩
  exact ⟨hkept, hQ g₁ he hkept⟩

/-- One more valid write. -/
theorem Site.Kept.write (h : g.Kept τ libs k) {w : Write} {held : Held} (hle : g.ses.held.le held)
    (hw : Valid τ libs k held g.ses.loaded g.view w)
    (hjobs : ∀ id ∈ held.jobs, ∃ j ∈ g.view.jobs, j.jobId = id)
    (hruns : ∀ id ∈ held.runs, ∃ r ∈ g.view.runs, r.runId = id) :
    (g.on { g.ses.write w with held := held }).Kept τ libs k := by
  refine ⟨h.now.write hle hw hjobs hruns, fun ws held' hs => ?_⟩
  obtain ⟨hle', hkept⟩ := h.saved ws held' hs
  exact ⟨hle'.trans hle, hkept⟩

theorem among_insertJob {Q : Option Nat → Site → Prop} (hτ : τ.Stable) (h : g.Kept τ libs k)
    {row : Job} (bad : ∀ g₁, g.Env τ g₁ → g₁.nextJob.Kept τ libs k → Q none g₁.nextJob)
    (good : ∀ g₁, g.Env τ g₁ → g₁.Kept τ libs k →
      Valid τ libs k g₁.ses.held g₁.ses.loaded g₁.view
        (.insertJob (storedJob g₁.seq g₁.ses.start row)) ∧
      ((g₁.write (.insertJob (storedJob g₁.seq g₁.ses.start row))).nextJob.Kept τ libs k →
        Q (some g₁.seq.jobs)
          (g₁.write (.insertJob (storedJob g₁.seq g₁.ses.start row))).nextJob)) :
    (Txn.insertJob row).wp (amongOthers τ libs k) E Q g := by
  refine among_stmt hτ h fun g₁ he hk _ pick others r seq ses hexec => ?_
  simp only [Stmt.exec] at hexec
  split at hexec
  · cases hexec
  · split at hexec
    · cases hexec
      exact ⟨⟨hk.now, hk.saved⟩, bad g₁ he ⟨hk.now, hk.saved⟩⟩
    · cases hexec
      obtain ⟨hvalid, hQ⟩ := good g₁ he hk
      have hkept := hk.write (.refl _) hvalid hk.now.held_jobs hk.now.held_runs
      exact ⟨⟨hkept.now, hkept.saved⟩, hQ ⟨hkept.now, hkept.saved⟩⟩

theorem among_insertRun {Q : Option Nat → Site → Prop} (hτ : τ.Stable) (h : g.Kept τ libs k)
    {row : JobRun}
    (clash : ∀ g₁, g.Env τ g₁ → g₁.nextRun.Kept τ libs k →
      g₁.view.runs.any (storedRun g₁.seq g₁.ses.start row).clashes = true → Q none g₁.nextRun)
    (new : ∀ g₁, g.Env τ g₁ → g₁.Kept τ libs k →
      g₁.view.runs.any (storedRun g₁.seq g₁.ses.start row).clashes = false →
      NewRun τ libs k g₁.ses.held g₁.ses.loaded g₁.view (storedRun g₁.seq g₁.ses.start row) ∧
      ((g₁.write (.insertRun (storedRun g₁.seq g₁.ses.start row))).nextRun.Kept τ libs k →
        Q (some g₁.seq.runs)
          (g₁.write (.insertRun (storedRun g₁.seq g₁.ses.start row))).nextRun)) :
    (Txn.insertRun row).wp (amongOthers τ libs k) E Q g := by
  refine among_stmt hτ h fun g₁ he hk _ pick others r seq ses hexec => ?_
  simp only [Stmt.exec] at hexec
  split at hexec
  · cases hexec
  · split at hexec
    · next hc =>
      cases hexec
      exact ⟨⟨hk.now, hk.saved⟩, clash g₁ he ⟨hk.now, hk.saved⟩ hc⟩
    · next hc =>
      cases hexec
      obtain ⟨hvalid, hQ⟩ := new g₁ he hk (Bool.eq_false_iff.mpr hc)
      have hkept := hk.write (w := .insertRun _) (.refl _) hvalid hk.now.held_jobs hk.now.held_runs
      exact ⟨⟨hkept.now, hkept.saved⟩, hQ ⟨hkept.now, hkept.saved⟩⟩

theorem among_insertEvent {Q : Unit → Site → Prop} (hτ : τ.Stable) (h : g.Kept τ libs k)
    {row : RunEvent}
    (hQ : ∀ g₁, g.Env τ g₁ → g₁.Kept τ libs k →
      Valid τ libs k g₁.ses.held g₁.ses.loaded g₁.view
        (.insertEvent (storedEvent g₁.seq g₁.ses.start row)) ∧
      ((g₁.write (.insertEvent (storedEvent g₁.seq g₁.ses.start row))).nextEvent.Kept τ libs k →
        Q () (g₁.write (.insertEvent (storedEvent g₁.seq g₁.ses.start row))).nextEvent)) :
    (Txn.insertEvent row).wp (amongOthers τ libs k) E Q g := by
  refine among_stmt hτ h fun g₁ he hk _ pick others r seq ses hexec => ?_
  cases hexec
  obtain ⟨hvalid, hQ⟩ := hQ g₁ he hk
  have hkept := hk.write (.refl _) hvalid hk.now.held_jobs hk.now.held_runs
  exact ⟨⟨hkept.now, hkept.saved⟩, hQ ⟨hkept.now, hkept.saved⟩⟩

theorem among_updateJobs {Q : List Nat → Site → Prop} (hτ : τ.Stable) (h : g.Kept τ libs k)
    (hk : k.creates = false) {p : Job → Bool} {set : Job → Job}
    (hset : ∃ now, set = Job.settle now ∨ set = Job.cancel now)
    (hQ : ∀ g₁ ids, g.Env τ g₁ → g₁.Kept τ libs k →
      ids = (g₁.view.jobs.filter p).map (·.jobId) →
      (∀ j ∈ g₁.view.jobs, j.jobId ∈ ids → j.state = .active ∧ (set j).Lifecycle) ∧
      ((g₁.updateJobs ids set).Kept τ libs k → Q ids (g₁.updateJobs ids set))) :
    (Txn.updateJobs p set).wp (amongOthers τ libs k) E Q g := by
  refine among_stmt hτ h fun g₁ he hk₁ _ pick others r seq ses hexec => ?_
  simp only [Stmt.exec] at hexec
  split at hexec
  · cases hexec
  · cases hexec
    obtain ⟨hrows, hQ⟩ := hQ g₁ _ he hk₁ rfl
    have hkept : (g₁.updateJobs ((g₁.view.jobs.filter p).map (·.jobId)) set).Kept τ libs k := by
      refine hk₁.write ⟨fun _ h => h, fun id hid => List.mem_append_right _ hid, fun _ h => h⟩
        ⟨hk, fun id hid => List.mem_append_left _ hid, hset, hrows⟩ (fun id hid => ?_)
        hk₁.now.held_runs
      rcases List.mem_append.mp hid with hid | hid
      · obtain ⟨j, hj, rfl⟩ := List.mem_map.mp hid
        exact ⟨j, (List.mem_filter.mp hj).1, rfl⟩
      · exact hk₁.now.held_jobs id hid
    exact ⟨hkept, hQ hkept⟩

theorem among_updateRuns {Q : List Nat → Site → Prop} (hτ : τ.Stable) (h : g.Kept τ libs k)
    {p : JobRun → Bool} {set : JobRun → JobRun} (hset : ∀ r : JobRun, r.SameRun (set r))
    (hQ : ∀ g₁ ids, g.Env τ g₁ → g₁.Kept τ libs k → τ.cond (.updateRuns p set) g₁ →
      ids = (g₁.view.runs.filter p).map (·.runId) →
      (∀ r ∈ g₁.view.runs, r.runId ∈ ids →
        ((set r).status.executing = true → r.status.executing = true ∨ k.writesBlindly r.runId) ∧
        (τ.final → r.status.cancellable = true)) ∧
      ((g₁.updateRuns ids set).Kept τ libs k → Q ids (g₁.updateRuns ids set))) :
    (Txn.updateRuns p set).wp (amongOthers τ libs k) E Q g := by
  refine among_stmt hτ h fun g₁ he hk₁ hcond pick others r seq ses hexec => ?_
  simp only [Stmt.exec] at hexec
  split at hexec
  · cases hexec
  · cases hexec
    obtain ⟨hrows, hQ⟩ := hQ g₁ _ he hk₁ hcond rfl
    have hkept : (g₁.updateRuns ((g₁.view.runs.filter p).map (·.runId)) set).Kept τ libs k := by
      refine hk₁.write ⟨fun _ h => h, fun _ h => h, fun id hid => List.mem_append_right _ hid⟩
        ⟨hset, fun id hid => List.mem_append_left _ hid, hrows⟩ hk₁.now.held_jobs fun id hid => ?_
      rcases List.mem_append.mp hid with hid | hid
      · obtain ⟨j, hj, rfl⟩ := List.mem_map.mp hid
        exact ⟨j, (List.mem_filter.mp hj).1, rfl⟩
      · exact hk₁.now.held_runs id hid
    exact ⟨hkept, hQ hkept⟩

/-- The stamp of the consumer. -/
theorem among_stamp {Q : Unit → Site → Prop} (hτ : τ.Stable) (h : g.Kept τ libs k) {e : RunEvent}
    {by_ : List (String × Int)} (hcont : τ.cont g.view e)
    (hQ : ∀ g₁ ids, g.Env τ g₁ →
      (g₁.updateEvents ids fun x => { x with processedBy := by_ }).Kept τ libs k →
      (∀ id, id ∈ ids ↔ id = e.eventId ∧ ∃ x ∈ g₁.view.events, x.eventId = id) →
      Q () (g₁.updateEvents ids fun x => { x with processedBy := by_ })) :
    (Txn.updateEvents (fun x => x.eventId == e.eventId) fun x => { x with processedBy := by_ }).wp
      (amongOthers τ libs k) E Q g := by
  refine among_stmt hτ h fun g₁ he hk₁ _ pick others r seq ses hexec => ?_
  simp only [Stmt.exec] at hexec
  split at hexec
  · cases hexec
  · cases hexec
    have hids : ∀ id, id ∈ ((g₁.view.events.filter fun x => x.eventId == e.eventId).map
        (·.eventId)) ↔ id = e.eventId ∧ ∃ x ∈ g₁.view.events, x.eventId = id := by
      intro id
      simp only [List.mem_map, List.mem_filter, beq_iff_eq]
      constructor
      · rintro ⟨x, ⟨hx, hxe⟩, rfl⟩
        exact ⟨hxe, x, hx, rfl⟩
      · rintro ⟨rfl, x, hx, hxe⟩
        exact ⟨x, ⟨hx, hxe⟩, hxe⟩
    have hc : τ.cont g₁.view e := hτ _ _ _ e (h.env hτ he).2 hcont
    have hkept : (g₁.updateEvents ((g₁.view.events.filter fun x => x.eventId == e.eventId).map
        (·.eventId)) fun x => { x with processedBy := by_ }).Kept τ libs k := by
      refine hk₁.write ⟨fun _ h => h, fun _ h => h,
        fun _ h => h⟩ ⟨e, by_, fun id hid => ((hids id).mp hid).1, rfl, hc⟩ hk₁.now.held_jobs
        hk₁.now.held_runs
    exact ⟨hkept, hQ g₁ _ he hkept hids⟩

end Rules

/-! ### Rows that a session holds -/

/-- The session has locked the run, and sees it as `r`. -/
structure Site.Holds (g : Site) (r : JobRun) : Prop where
  locked : r.runId ∈ g.ses.held.runs
  mem : r ∈ g.view.runs
  only : ∀ x ∈ g.view.runs, x.runId = r.runId → x = r

namespace Site.Holds

variable {τ : Terms} {libs : Libs} {k : Kind} {g g₁ : Site} {r : JobRun}

theorem env (h : g.Holds r) (hτ : τ.Stable) (hk : g.Kept τ libs k) (he : g.Env τ g₁) :
    g₁.Holds r := by
  have hview := (hk.env hτ he).2
  refine ⟨he.ses ▸ h.locked, ?_, fun x hx hid => ?_⟩
  · obtain ⟨r', hr', -, heq⟩ := hview.runs r h.mem
    rwa [heq h.locked] at hr'
  · exact h.only x (hview.held_runs x hx (hid ▸ h.locked)) hid

/-- Other writes of the session leave the row. -/
theorem of_view (h : g.Holds r) (hheld : ∀ id ∈ g.ses.held.runs, id ∈ g₁.ses.held.runs)
    (hruns : g₁.view.runs = g.view.runs) : g₁.Holds r :=
  ⟨hheld _ h.locked, hruns ▸ h.mem, fun x hx hid => h.only x (hruns ▸ hx) hid⟩

theorem updateRuns (h : g.Holds r) {ids : List Nat} {set : JobRun → JobRun} (hnot : r.runId ∉ ids)
    (hset : ∀ r : JobRun, r.SameRun (set r)) : (g.updateRuns ids set).Holds r := by
  have hview : (g.updateRuns ids set).view.runs =
      g.view.runs.map fun r => if r.runId ∈ ids then set r else r := by
    simp [Site.view, Session.view, Site.updateRuns, Site.on, Session.write, Write.apply]
  refine ⟨List.mem_append_right _ h.locked, ?_, fun x hx hid => ?_⟩
  · rw [hview]
    exact List.mem_map.mpr ⟨r, h.mem, if_neg hnot⟩
  · rw [hview] at hx
    obtain ⟨y, hy, rfl⟩ := List.mem_map.mp hx
    split at hid
    · next hin =>
      rw [(hset y).runId] at hid
      exact absurd (hid ▸ hin) hnot
    · next hin =>
      rw [if_neg hin]
      exact h.only y hy hid

end Site.Holds

/-- A transaction that has written nothing holds the rows that it locks. -/
theorem Site.Kept.holds {g : Site} {rows : List JobRun} {p : JobRun → Bool}
    (hw : g.ses.writes = []) (hcoh : Coherent g.committed g.seq)
    (hsub : List.Sublist rows (g.view.runs.filter p)) :
    ∀ r ∈ rows, (g.lockRows rows).Holds r ∧ p r = true := by
  intro r hr
  have hview : g.view = g.committed := by simp [Site.view, Session.view, hw]
  have hmem := List.mem_filter.mp (hsub.subset hr)
  refine ⟨⟨List.mem_append_left _ (List.mem_map_of_mem hr), hmem.1, fun x hx hid => ?_⟩, hmem.2⟩
  change x ∈ g.view.runs at hx
  rw [hview] at hx hmem
  exact hcoh.run_eq hx hmem.1 hid

theorem locked_nodup {g : Site} {rows : List JobRun} {p : JobRun → Bool}
    (hw : g.ses.writes = []) (hcoh : Coherent g.committed g.seq)
    (hsub : List.Sublist rows (g.view.runs.filter p)) : (rows.map (·.runId)).Nodup := by
  have hview : g.view = g.committed := by simp [Site.view, Session.view, hw]
  rw [hview] at hsub
  exact hcoh.runs.sublist ((hsub.trans List.filter_sublist).map _)

end TaskScheduler
