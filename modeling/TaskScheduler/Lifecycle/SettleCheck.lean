import TaskScheduler.Interleave.Valid
import TaskScheduler.Lifecycle.Cascade

/-! The transaction of a settle check.  Beside other transactions that settle and cancel jobs it ends,
for every level of its recursion has settled one more active job; with no other writer it completes
exactly the jobs that the cascade reaches. -/

namespace TaskScheduler

open Lib

/-! ### Beside other transactions -/

/-- Other transactions have settled or cancelled jobs, and have added or dropped none. -/
def Tables.Retires (t t' : Tables) : Prop :=
  List.Forall₂ (fun j j' => j'.jobId = j.jobId ∧ (j'.state = .active → j.state = .active))
    t.jobs t'.jobs

/-- The statements of a session, where other transactions may retire jobs, and change runs and events,
before each of them. -/
def besideRetiring : Account Stmt Reply Site where
  may _ _ := True
  next s g r g' := g.committed.Retires g'.committed ∧
    ∃ pick others seq, s.exec pick others g'.committed (seq, g.ses) = some (r, g'.seq, g'.ses)

/-- The writes of a settle check. -/
def Write.settlesOnly : Write → Prop
  | .insertJob _ => False
  | .updateJobs _ set => ∃ now, set = Job.settle now
  | _ => True

namespace Tables

theorem Retires.refl (t : Tables) : t.Retires t :=
  List.forall₂_same.mpr fun _ _ => ⟨rfl, fun h => h⟩

theorem Retires.trans {t t' t'' : Tables} (h : t.Retires t') (h' : t'.Retires t'') :
    t.Retires t'' :=
  pointwise_trans (fun hab hbc => ⟨hbc.1.trans hab.1, fun h => hab.2 (hbc.2 h)⟩) h h'

/-- The writes of a settle check on top of retired jobs. -/
theorem Retires.apply {t t' : Tables} {w : Write} (h : t.Retires t') (hw : w.settlesOnly) :
    (w.apply t).Retires (w.apply t') := by
  cases w with
  | insertJob row => exact hw.elim
  | updateJobs ids set =>
    obtain ⟨now, rfl⟩ := hw
    refine List.forall₂_map_left_iff.mpr (List.forall₂_map_right_iff.mpr (h.imp ?_))
    intro j j' hjj
    rw [hjj.1]
    split
    · exact ⟨hjj.1, fun hactive => by cases hactive⟩
    · exact hjj
  | _ => exact h

theorem Retires.applyAll {t t' : Tables} {ws : List Write} (h : t.Retires t')
    (hws : ∀ w ∈ ws, w.settlesOnly) : (Write.applyAll ws t).Retires (Write.applyAll ws t') := by
  induction ws generalizing t t' with
  | nil => exact h
  | cons w ws ih =>
    exact ih (h.apply (hws w List.mem_cons_self)) fun w' hw' => hws w' (List.mem_cons_of_mem _ hw')

theorem Retires.activeCount_le {t t' : Tables} (h : t.Retires t') :
    t'.activeCount ≤ t.activeCount :=
  pointwise_countP h fun hjj hactive => by simpa using hjj.2 (by simpa using hactive)

end Tables

/-- A site of a settle check that sees fewer than `n` active jobs. -/
structure Site.Settling (n : Nat) (g : Site) : Prop where
  writes : ∀ w ∈ g.ses.writes, w.settlesOnly
  few : g.view.activeCount < n

theorem Site.Settling.mono {n m : Nat} {g : Site} (h : g.Settling n) (hle : n ≤ m) : g.Settling m :=
  ⟨h.writes, lt_of_lt_of_le h.few hle⟩

section Beside

variable {E : Err → Site → Prop} {n : Nat} {g : Site}

/-- A statement that writes nothing leaves no more active jobs. -/
theorem beside_stmt {α : Type} {Q : α → Site → Prop} {s : Stmt} {k : Reply s → Txn α}
    (hg : g.Settling n)
    (hs : ∀ pick others t r seq seq' ses, s.exec pick others t (seq, g.ses) = some (r, seq', ses) →
      ses.writes = g.ses.writes)
    (hk : ∀ r g', g'.Settling n → (k r).wp besideRetiring E Q g') :
    (Program.op s k : Txn α).wp besideRetiring E Q g := by
  refine ⟨trivial, fun r g' hnext => hk r g' ?_⟩
  obtain ⟨hretires, pick, others, seq, hexec⟩ := hnext
  have hwrites := hs pick others g'.committed r seq g'.seq g'.ses hexec
  refine ⟨hwrites ▸ hg.writes, lt_of_le_of_lt ?_ hg.few⟩
  have hview : g'.view = Write.applyAll g.ses.writes g'.committed := by
    rw [Site.view, Session.view, hwrites]
  rw [hview]
  exact (hretires.applyAll hg.writes).activeCount_le

theorem beside_loadJobs (p : Job → Bool) (hg : g.Settling n) :
    (Txn.loadJobs p).wp besideRetiring E (fun _ g' => g'.Settling n) g :=
  beside_stmt hg (fun _ _ _ _ _ _ _ h => by cases h; rfl) fun _ _ hg' => hg'

theorem beside_selectJobs (p : Job → Bool) (hg : g.Settling n) :
    (Txn.selectJobs p).wp besideRetiring E (fun _ g' => g'.Settling n) g :=
  beside_stmt hg (fun _ _ _ _ _ _ _ h => by cases h; rfl) fun _ _ hg' => hg'

theorem beside_selectRuns (p : JobRun → Bool) (hg : g.Settling n) :
    (Txn.selectRuns p).wp besideRetiring E (fun _ g' => g'.Settling n) g :=
  beside_stmt hg (fun _ _ _ _ _ _ _ h => by cases h; rfl) fun _ _ hg' => hg'

theorem beside_advisoryLock (key : Nat) (hg : g.Settling n) :
    (Txn.advisoryLock key).wp besideRetiring E (fun _ g' => g'.Settling n) g := by
  refine beside_stmt hg (fun _ _ _ _ _ _ _ h => ?_) fun _ _ hg' => hg'
  simp only [Stmt.exec] at h
  split at h
  · cases h
  · cases h
    rfl

/-- The compare-and-set of a settle: where it matches a row, one more job is settled. -/
theorem beside_settle {Q : List Nat → Site → Prop} {p : Job → Bool} {now : Int}
    (hg : g.Settling (n + 1)) (hp : ∀ j, p j = true → j.state = .active)
    (hQ : ∀ ids g', g'.Settling (n + 1) → (ids ≠ [] → g'.Settling n) → Q ids g') :
    (Txn.updateJobs p (Job.settle now)).wp besideRetiring E Q g := by
  refine ⟨trivial, ?_⟩
  rintro r ⟨committed, seq', ses⟩ ⟨hretires, pick, others, seq, hexec⟩
  simp only [Stmt.exec] at hexec
  split at hexec
  · cases hexec
  cases hexec
  have hbefore : (g.ses.view committed).activeCount < n + 1 :=
    lt_of_le_of_lt (hretires.applyAll hg.writes).activeCount_le hg.few
  have hwrites : ∀ ids, ∀ w ∈ g.ses.writes ++ [Write.updateJobs ids (Job.settle now)],
      w.settlesOnly := by
    intro ids w hw
    rcases List.mem_append.mp hw with hw | hw
    · exact hg.writes w hw
    · exact List.mem_singleton.mp hw ▸ ⟨now, rfl⟩
  have hview : ∀ ids, Write.applyAll (g.ses.writes ++ [Write.updateJobs ids (Job.settle now)])
      committed = (g.ses.view committed).settled now ids := by
    simp [Session.view, Tables.settled]
  refine hQ _ _ ⟨hwrites _, ?_⟩ fun hne => ⟨hwrites _, ?_⟩
  · refine lt_of_le_of_lt ?_ hbefore
    rw [Site.view, Session.view]
    refine (congrArg Tables.activeCount (hview _)).trans_le Tables.activeCount_settled_le
  · obtain ⟨id, hid⟩ := List.exists_mem_of_ne_nil _ hne
    obtain ⟨j, hj, rfl⟩ := List.mem_map.mp hid
    obtain ⟨hj, hpj⟩ := List.mem_filter.mp hj
    refine lt_of_lt_of_le ((congrArg Tables.activeCount (hview _)).trans_lt
      (Tables.activeCount_settled_lt hj (hp j hpj) hid)) (Nat.le_of_lt_succ hbefore)

theorem triggerParentActive_beside (job : Job) (hg : g.Settling n) :
    (triggerParentActive job).wp besideRetiring E (fun _ g' => g'.Settling n) g := by
  unfold triggerParentActive
  cases job.triggerOnJobId with
  | none => exact hg
  | some parent =>
    rw [Program.wp_bind]
    exact Program.wp_mono (beside_selectJobs _ hg) fun _ _ hg' => hg'

/-- A settle check ends, whatever the other transactions retire meanwhile: every level of the
recursion has settled an active job. -/
theorem settleCheck_ends (now : Int) (id : Nat) (hg : g.Settling n) :
    (settleCheck now n id).wp besideRetiring (fun _ _ => False) (fun _ g' => g'.Settling n) g := by
  induction n generalizing id g with
  | zero => exact absurd hg.few (Nat.not_lt_zero _)
  | succ n ih =>
    unfold settleCheck
    rw [Program.wp_bind]
    refine Program.wp_mono (beside_loadJobs _ hg) fun rows g₁ hg₁ => ?_
    cases rows.head? with
    | none => exact hg₁
    | some job =>
      dsimp only
      split
      · exact hg₁
      split
      · exact hg₁
      unfold acquireJobLock hasExecutingRun
      simp only [Program.wp_bind]
      refine Program.wp_mono (beside_advisoryLock id hg₁) fun _ g₂ hg₂ => ?_
      simp only [Program.wp_bind]
      refine Program.wp_mono (beside_selectRuns _ hg₂) fun runs g₃ hg₃ => ?_
      simp only [Program.pure_eq, Program.wp_ret]
      split
      · exact hg₃
      rw [Program.wp_bind]
      refine Program.wp_mono (triggerParentActive_beside job hg₃) fun b g₄ hg₄ => ?_
      split
      · exact hg₄
      rw [Program.wp_bind]
      refine beside_settle hg₄ (fun j hj => by simpa using (Bool.and_eq_true_iff.mp hj).2)
        fun ids g₅ hg₅ hless => ?_
      split
      · exact hg₅
      · next hne =>
        -- the children are checked with one active job less
        rw [Program.wp_bind]
        refine Program.wp_mono (?_ : (settleDownstreams (settleCheck now n) id).wp besideRetiring
          (fun _ _ => False) (fun _ g' => g'.Settling n) g₅) fun _ g₆ hg₆ => hg₆.mono n.le_succ
        unfold settleDownstreams
        rw [Program.wp_bind]
        refine Program.wp_mono (beside_selectJobs _ (hless (by simpa using hne))) fun ds g₆ hg₆ => ?_
        refine Program.wp_forM (fun _ g' => g'.Settling n) (fun d _ g' hg' => ?_) (fun _ h => h) ds g₆ hg₆
        rw [Program.wp_bind]
        exact ih d.jobId hg'

end Beside

/-! ### Alone -/

/-- Alone, a settle check computes the settle on the tables, and takes nothing from a sequence. -/
theorem settleCheck_alone {x : Db} (keys : JobKeys x.tables.jobs x.seq.jobs) {now : Int}
    {depth jobId : Nat} {t : Tables} (h : x.tables.settle now depth jobId = .ok t) (start : Int)
    (pick : Nat → Bool) : ∃ b,
      x.alone start pick (settleCheck now depth jobId) = some (.ok b, { x with tables := t }) := by
  obtain ⟨⟨res, seq, ses⟩, hrun⟩ := Option.isSome_iff_exists.mp
    (run_isSome pick x.tables (settleCheck now depth jobId) (x.seq, { start }))
  have hwp : (settleCheck now depth jobId).wp (rowAccount Job.SettledTo pick start) (fun _ _ => False)
      (fun _ v => v.tables = t ∧ v.seq = x.seq) ⟨x.tables, x.seq, none⟩ := by
    refine settleCheck_computes now depth jobId _ _ _ keys.nodup (fun b t' ht => ?_) fun err v' herr => ?_
    · exact ⟨Except.ok.inj (ht.symm.trans h), rfl⟩
    · rw [show x.tables.settle now depth jobId = .error err from herr] at h
      cases h
  obtain ⟨v, hview, hseq, hend⟩ := run_atomic settledTo_aging keys hwp hrun
  cases res with
  | error e => exact hend.elim
  | ok b =>
    refine ⟨b, ?_⟩
    obtain ⟨ht, hs⟩ : v.tables = t ∧ v.seq = x.seq := hend
    simp only [Db.alone, hrun, ← hview, ← hseq, ht, hs]

theorem JobKeys.settled {t : Tables} {next : Nat} (h : JobKeys t.jobs next) (now : Int)
    (ids : List Nat) : JobKeys (t.settled now ids).jobs next where
  nodup := by
    rw [Tables.settled_keys]
    exact h.nodup
  below j hj := by
    obtain ⟨i, hi, rfl⟩ := Tables.mem_settled.mp hj
    have := h.below i hi
    split <;> exact this

/-- The settle cascade ends, also beside other transactions that retire jobs.  Alone, it completes
exactly the released jobs and changes nothing else, and a second call changes nothing. -/
theorem settle_cascade_exact {x : Db} (keys : JobKeys x.tables.jobs x.seq.jobs) (now : Int)
    {depth : Nat} (jobId : Nat) (hdepth : x.tables.activeCount < depth) :
    (∀ g : Site, g.committed = x.tables → g.ses.writes = [] →
      (settleCheck now depth jobId).wp besideRetiring (fun _ _ => False) (fun _ _ => True) g) ∧
    ∀ start pick, ∃ b ids y,
      x.alone start pick (settleCheck now depth jobId) = some (.ok b, y) ∧
      y = { x with tables := x.tables.settled now ids } ∧
      (∀ id, id ∈ ids ↔ x.tables.Released jobId id) ∧
      ∀ later start' pick', ∃ b',
        y.alone start' pick' (settleCheck later depth jobId) = some (.ok b', y) := by
  constructor
  · intro g hcommitted hwrites
    have hg : g.Settling depth := by
      refine ⟨by simp [hwrites], ?_⟩
      rwa [Site.view, Session.view, hwrites, Write.applyAll_nil, hcommitted]
    exact Program.wp_mono (settleCheck_ends now jobId hg) fun _ _ _ => trivial
  · intro start pick
    obtain ⟨ids, hrun, hids⟩ := Tables.settle_released now jobId keys.nodup hdepth
    obtain ⟨b, hfirst⟩ := settleCheck_alone keys hrun start pick
    refine ⟨b, ids, _, hfirst, rfl, hids, fun later start' pick' => ?_⟩
    exact settleCheck_alone (x := { x with tables := x.tables.settled now ids })
      (keys.settled now ids) (Tables.settle_again hids (Nat.zero_lt_of_lt hdepth) later) start' pick'

/-- A job, one that it triggers, and one below that, with nothing left to run. -/
def Db.spentChain : Db where
  tables := { jobs := [
    { Job.new (.echo none none none) ⟨0, "UTC", none, none⟩ with jobId := 1 },
    { Job.new (.echo none (some 1) none) ⟨0, "UTC", none, none⟩ with jobId := 2 },
    { Job.new (.echo none (some 2) none) ⟨0, "UTC", none, none⟩ with jobId := 3 }] }
  seq := { jobs := 4 }

/-- A settle check of the first job reaches the others. -/
theorem spentChain_settles : ∃ b ids y,
    Db.spentChain.alone 0 (fun _ => true) (settleCheck 0 4 1) = some (.ok b, y) ∧
    (∀ id, id ∈ ids ↔ Db.spentChain.tables.Released 1 id) ∧
    y = { Db.spentChain with tables := Db.spentChain.tables.settled 0 ids } ∧
    y.tables.jobs.map (·.state) = [.completed, .completed, .completed] := by
  obtain ⟨b, ids, y, hrun, hy, hids, -⟩ := (@settle_cascade_exact Db.spentChain
    ⟨by decide, by decide⟩ 0 4 1 (by decide)).2 0 fun _ => true
  refine ⟨b, ids, y, hrun, hids, hy, ?_⟩
  have hstates : (Db.spentChain.alone 0 (fun _ => true) (settleCheck 0 4 1)).map
      (fun end_ => end_.2.tables.jobs.map (·.state)) =
        some [.completed, .completed, .completed] := by decide +kernel
  rw [hrun] at hstates
  exact Option.some.inj hstates

end TaskScheduler
