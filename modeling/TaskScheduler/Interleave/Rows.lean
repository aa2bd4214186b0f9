import TaskScheduler.Interleave.System
import TaskScheduler.Interleave.Updates

/-! The runs under interleaving transactions, row by row.  The writes of a session act on every
committed run by itself and add runs of their own, and a row that a session has written or locked
stays as it is until it commits.  So a commit makes of every run what the updates of its transaction
make of it, `Kind.Becomes`. -/

namespace TaskScheduler

open Lib

namespace Write

/-- What the writes do to a run. -/
def onRun : List Write → JobRun → JobRun
  | [], r => r
  | .updateRuns ids set :: ws, r => onRun ws (if r.runId ∈ ids then set r else r)
  | .insertJob _ :: ws, r | .updateJobs _ _ :: ws, r | .insertRun _ :: ws, r
  | .insertEvent _ :: ws, r | .updateEvents _ _ :: ws, r => onRun ws r

/-- The runs that the writes insert, as they leave them. -/
def newRuns (ws : List Write) : List JobRun := (applyAll ws {}).runs

/-- The write changes runs. -/
def OnRuns : Write → Prop
  | .insertRun _ | .updateRuns _ _ => True
  | _ => False

variable {ws : List Write} {w : Write}

theorem applyAll_runs (ws : List Write) (t : Tables) :
    (applyAll ws t).runs = t.runs.map (onRun ws) ++ newRuns ws := by
  induction ws generalizing t with
  | nil => simp [onRun, newRuns]
  | cons w ws ih =>
    have hnew : newRuns (w :: ws) = (w.apply {}).runs.map (onRun ws) ++ newRuns ws := ih (w.apply {})
    change (applyAll ws (w.apply t)).runs = _
    rw [ih (w.apply t), hnew]
    cases w with
    | insertRun row => simp [apply, onRun]
    | updateRuns ids set =>
      simp only [apply, List.map_map, List.map_nil, List.nil_append]
      rfl
    | _ => simp [apply, onRun]

theorem onRun_append (ws vs : List Write) (r : JobRun) :
    onRun (ws ++ vs) r = onRun vs (onRun ws r) := by
  induction ws generalizing r with
  | nil => rfl
  | cons w ws ih => cases w <;> exact ih _

theorem newRuns_append (ws : List Write) (w : Write) :
    newRuns (ws ++ [w]) = (w.apply (applyAll ws {})).runs := by
  rw [newRuns, applyAll_append, applyAll_singleton]

/-- A run that no write names stays as it is. -/
theorem onRun_eq {r : JobRun} (h : ∀ ids set, .updateRuns ids set ∈ ws → r.runId ∉ ids) :
    onRun ws r = r := by
  induction ws with
  | nil => rfl
  | cons w ws ih =>
    have hws := ih fun ids set hw => h ids set (List.mem_cons_of_mem _ hw)
    cases w with
    | updateRuns ids set =>
      rw [onRun, if_neg (h ids set List.mem_cons_self)]
      exact hws
    | _ => exact hws

theorem apply_runs (hw : ¬w.OnRuns) (t : Tables) : (w.apply t).runs = t.runs := by
  cases w with
  | insertRun row | updateRuns ids set => exact absurd trivial hw
  | _ => rfl

theorem onRun_singleton (hw : ¬w.OnRuns) (r : JobRun) : onRun [w] r = r := by
  cases w with
  | insertRun row => rfl
  | updateRuns ids set => exact absurd trivial hw
  | _ => rfl

end Write

/-- A run as it was inserted. -/
def JobRun.Fresh (r : JobRun) : Prop :=
  ∃ seq start job runAt wait, r = storedRun seq start (.new job runAt .pending wait)

/-- The runs keep their places, each goes on by `R`, and those that are added are fresh. -/
def Tables.RunsMove (R : JobRun → JobRun → Prop) (t t' : Tables) : Prop :=
  ∃ (f : JobRun → JobRun) (new : List JobRun), t'.runs = t.runs.map f ++ new ∧
    (∀ c ∈ t.runs, R c (f c)) ∧ ∀ v ∈ new, v.Fresh

/-! ### What a transaction makes of a run -/

/-- What the updates of a transaction make of the committed run `c`.  Only the write that follows
the work on a run gives an executing status to one that has ended, and a transaction that locks
first updates what executes. -/
inductive Kind.Becomes (k : Kind) (c : JobRun) : JobRun → Prop
  | refl : Becomes k c c
  | update {p : JobRun → Bool} {set : JobRun → JobRun} {v : JobRun} (hv : Becomes k c v)
      (hset : k.Updates p set) (hp : p v = true)
      (hlive : (set v).status.executing = true →
        v.status.executing = true ∨ k.writesBlindly v.runId)
      (hlocks : k.locks = true → c.status.executing = true) : Becomes k c (set v)

namespace Kind.Becomes

variable {k : Kind} {c v : JobRun}

theorem sameRun (h : k.Becomes c v) : c.SameRun v := by
  induction h with
  | refl => exact .refl c
  | update _ hset _ _ _ ih => exact ih.trans (hset.sameRun _)

theorem executing (h : k.Becomes c v) (hv : v.status.executing = true) :
    c.status.executing = true ∨ k.writesBlindly c.runId := by
  induction h with
  | refl => exact .inl hv
  | update hbecomes _ _ hlive _ ih =>
    rcases hlive hv with hv | hblind
    · exact ih hv
    · exact .inr (hbecomes.sameRun.runId ▸ hblind)

end Kind.Becomes

theorem Kind.not_writesBlindly {k : Kind} (hk : k.locks = true) (id : Nat) :
    ¬k.writesBlindly id := by
  cases k with
  | finish now runId jobId outcome => cases hk
  | _ => exact fun h => h

/-- What the writes of a session have done to the committed runs, and to their own. -/
structure RowsKept (k : Kind) (t : Tables) (ws : List Write) : Prop where
  old : ∀ c ∈ t.runs, k.Becomes c (Write.onRun ws c)
  new : ∀ v ∈ Write.newRuns ws, v.Fresh ∧ k.spawns = true
  updates : ∀ ids set, .updateRuns ids set ∈ ws → k.spawns = false

namespace RowsKept

variable {k : Kind} {t t' : Tables} {ws : List Write}

theorem moves (h : RowsKept k t ws) : t.RunsMove k.Becomes (Write.applyAll ws t) :=
  ⟨Write.onRun ws, Write.newRuns ws, Write.applyAll_runs ws t, h.old, fun v hv => (h.new v hv).1⟩

theorem nil : RowsKept k t [] :=
  ⟨fun c _ => .refl, fun v hv => (by cases hv), fun _ _ hw => (by cases hw)⟩

/-- The rows of a session that holds its locks do not change under it. -/
theorem env (h : RowsKept k t ws) {calm : Prop} {held : Held}
    (hheld : ∀ ids set, .updateRuns ids set ∈ ws → ∀ id ∈ ids, id ∈ held.runs)
    (ho : Others calm held t t') : RowsKept k t' ws := by
  refine ⟨fun c hc => ?_, h.new, h.updates⟩
  by_cases hnamed : ∃ ids set, .updateRuns ids set ∈ ws ∧ c.runId ∈ ids
  · obtain ⟨ids, set, hw, hid⟩ := hnamed
    exact h.old c (ho.held_runs c hc (hheld ids set hw _ hid))
  · rw [Write.onRun_eq fun ids set hw hid => hnamed ⟨ids, set, hw, hid⟩]
    exact .refl

theorem other (h : RowsKept k t ws) {w : Write} (hw : ¬w.OnRuns) : RowsKept k t (ws ++ [w]) := by
  refine ⟨fun c hc => ?_, ?_, fun ids set hin => ?_⟩
  · rw [Write.onRun_append, Write.onRun_singleton hw]
    exact h.old c hc
  · rw [Write.newRuns_append, Write.apply_runs hw]
    exact h.new
  · rcases List.mem_append.mp hin with hin | hin
    · exact h.updates ids set hin
    · rw [← List.mem_singleton.mp hin] at hw
      exact absurd trivial hw

theorem insertRun (h : RowsKept k t ws) {row : JobRun} (hrow : row.Fresh) (hk : k.spawns = true) :
    RowsKept k t (ws ++ [.insertRun row]) := by
  refine ⟨fun c hc => ?_, fun v hv => ?_, fun ids set hin => ?_⟩
  · rw [Write.onRun_append]
    exact h.old c hc
  · rw [Write.newRuns_append] at hv
    rcases List.mem_append.mp hv with hv | hv
    · exact h.new v hv
    · exact ⟨List.mem_singleton.mp hv ▸ hrow, hk⟩
  · rcases List.mem_append.mp hin with hin | hin
    · exact h.updates ids set hin
    · cases List.mem_singleton.mp hin

/-- An update of a transaction that inserts no runs. -/
theorem updateRuns (h : RowsKept k t ws) {ids : List Nat} {set : JobRun → JobRun}
    (hk : k.spawns = false)
    (hset : ∀ c v, c ∈ t.runs → v ∈ (Write.applyAll ws t).runs → v.runId ∈ ids → k.Becomes c v →
      k.Becomes c (set v)) : RowsKept k t (ws ++ [.updateRuns ids set]) := by
  refine ⟨fun c hc => ?_, fun v hv => ?_, fun _ _ _ => hk⟩
  · rw [Write.onRun_append, Write.onRun, Write.onRun]
    split
    · next hid =>
      refine hset c _ hc ?_ hid (h.old c hc)
      rw [Write.applyAll_runs]
      exact List.mem_append_left _ (List.mem_map_of_mem hc)
    · exact h.old c hc
  · rw [Write.newRuns_append] at hv
    obtain ⟨x, hx, -⟩ := List.mem_map.mp hv
    rw [(h.new x hx).2] at hk
    cases hk

/-- A committed run, as the session sees it. -/
theorem seen (h : RowsKept k t ws) (hnodup : ((Write.applyAll ws t).runs.map (·.runId)).Nodup)
    {c v : JobRun} (hc : c ∈ t.runs) (hv : v ∈ (Write.applyAll ws t).runs)
    (hid : v.runId = c.runId) : k.Becomes c v := by
  have hmem : Write.onRun ws c ∈ (Write.applyAll ws t).runs := by
    rw [Write.applyAll_runs]
    exact List.mem_append_left _ (List.mem_map_of_mem hc)
  have hbecomes := h.old c hc
  rw [List.inj_on_of_nodup_map hnodup hv hmem (hid.trans hbecomes.sameRun.runId.symm)]
  exact hbecomes

end RowsKept

/-! ### Sessions -/

/-- An open session: what it has done to the runs, and what it will still issue. -/
structure Open.Rows (t : Tables) (o : Open) : Prop where
  now : RowsKept o.kind t o.ses.writes
  saved : ∀ ws held, o.ses.saved = some (ws, held) → RowsKept o.kind t ws
  issues : o.prog.Issues (Stmt.Runs (o.kind.spawns = true) o.kind.Updates)
  locked : o.kind.locks = true → ∃ L, LocksFirst o.prog L ∧
    ∀ id ∈ L, id ∈ o.ses.held.runs ∧ ∀ c ∈ t.runs, c.runId = id → c.status.executing = true

def Sys.Rows (σ : Sys) : Prop :=
  ∀ (i : Nat) (o : Open), σ.sessions[i]? = some (some o) → o.Rows σ.tables

/-- The rows that a session has updated are locked. -/
theorem Kept.ids_held {τ : Terms} {libs : Libs} {k : Kind} {writes : List Write} {held : Held}
    {loaded : List Job} {t : Tables} (h : Kept τ libs k writes held loaded t) {ids : List Nat}
    {set : JobRun → JobRun} (hw : .updateRuns ids set ∈ writes) : ∀ id ∈ ids, id ∈ held.runs := by
  obtain ⟨t', hvalid⟩ := h.replays.mem hw
  exact hvalid.2.1

/-- The step is not a transaction at once. -/
def Act.stepwise : Act → Prop
  | .atomic _ _ _ => False
  | _ => True

/-- A step of a session of kind `k`. -/
def Act.within (k : Kind) : Act → Prop
  | .start k' _ => k' = k
  | .statement _ _ | .commit _ | .abort _ => True
  | _ => False

theorem Act.within.stepwise {k : Kind} {a : Act} (h : a.within k) : a.stepwise := by
  cases a with
  | atomic k' start pick => exact h
  | _ => trivial

namespace Sys

variable {τ : Terms} {cfg : Config} {σ σ' : Sys}

/-- Other transactions commit under an open session. -/
theorem rows_env {t t' : Tables} {seq : Seq} {o : Open} (h : o.Rows t)
    (hk : Site.Kept τ cfg.libs o.kind ⟨t, seq, o.ses⟩) {calm : Prop}
    (ho : Others calm o.ses.held t t') : o.Rows t' := by
  refine ⟨h.now.env (fun ids set hw => hk.now.ids_held hw) ho, fun ws held hs => ?_,
    h.issues, fun hlocks => ?_⟩
  · obtain ⟨hle, hkept⟩ := hk.saved ws held hs
    exact (h.saved ws held hs).env
      (fun ids set hw id hid => hle.runs id (hkept.ids_held hw id hid)) ho
  · obtain ⟨L, hprog, hL⟩ := h.locked hlocks
    refine ⟨L, hprog, fun id hid => ⟨(hL id hid).1, fun c hc heq => ?_⟩⟩
    exact (hL id hid).2 c (ho.held_runs c hc (heq ▸ (hL id hid).1)) heq

/-- A session issues a statement. -/
theorem rows_exec {t : Tables} {seq seq' : Seq} {k : Kind} {s : Stmt} {rest : Reply s → Txn Bool}
    {ses ses' : Session} (h : Open.Rows t ⟨k, .op s rest, ses⟩)
    (hnodup : ((ses.view t).runs.map (·.runId)).Nodup)
    (hk : Site.Kept τ cfg.libs k ⟨t, seq', ses'⟩) {pick : Nat → Bool} {others : List Session}
    {r : Reply s} (hexec : s.exec pick others t (seq, ses) = some (r, seq', ses')) :
    Open.Rows t ⟨k, rest r, ses'⟩ := by
  obtain ⟨hnow, hsaved, ⟨hs, hissues⟩, hlocked⟩ := h
  dsimp only at hnow hsaved hs hlocked
  have hrest : (rest r).Issues (Stmt.Runs (k.spawns = true) k.Updates) := hissues r
  -- a statement that neither locks runs nor goes back keeps the locks that were taken
  have hstay : (∀ L, lockAccount.next s L r L) →
      (∀ id ∈ ses.held.runs, id ∈ ses'.held.runs) → k.locks = true →
      ∃ L, LocksFirst (rest r) L ∧ ∀ id ∈ L, id ∈ ses'.held.runs ∧
        ∀ c ∈ t.runs, c.runId = id → c.status.executing = true := by
    intro hnext hheld hlocks
    obtain ⟨L, ⟨-, hwp⟩, hL⟩ := hlocked hlocks
    exact ⟨L, hwp r L (hnext L), fun id hid => ⟨hheld id (hL id hid).1, (hL id hid).2⟩⟩
  cases s with
  | updateRuns p set =>
    simp only [Stmt.exec] at hexec
    split at hexec
    · cases hexec
    cases hexec
    refine ⟨hnow.updateRuns hs.not_spawns fun c v hold hv hid hc => ?_, hsaved, hrest,
      hstay (fun _ => rfl) fun id hid => List.mem_append_right _ hid⟩
    have hvalid := Replays.last hk.now.replays
    obtain ⟨x, hx, hxid⟩ := List.mem_map.mp hid
    obtain ⟨hx, hpx⟩ := List.mem_filter.mp hx
    obtain rfl := List.inj_on_of_nodup_map hnodup hx hv hxid
    refine .update hc hs hpx (hvalid.2.2 x hv hid).1 fun hlocks => ?_
    obtain ⟨L, ⟨hmay, -⟩, hL⟩ := hlocked hlocks
    exact (hL x.runId (hmay x hpx)).2 c hold hc.sameRun.runId.symm
  | lockRuns p n =>
    cases hexec
    refine ⟨hnow, hsaved, hrest, fun hlocks => ?_⟩
    obtain ⟨L, ⟨hmay, hwp⟩, hL⟩ := hlocked hlocks
    refine ⟨_, hwp _ _ rfl, fun id hid => ?_⟩
    rcases List.mem_append.mp hid with hid | hid
    · refine ⟨List.mem_append_left _ hid, fun c hc heq => ?_⟩
      obtain ⟨v, hv, rfl⟩ := List.mem_map.mp hid
      obtain ⟨hv, hp⟩ := List.mem_filter.mp (List.mem_of_mem_take hv)
      simp only [Bool.and_eq_true] at hp
      have hbecomes := hnow.seen hnodup hc hv heq.symm
      exact (hbecomes.executing (hmay v hp.1.1)).resolve_right (Kind.not_writesBlindly hlocks _)
    · exact ⟨List.mem_append_right _ (hL id hid).1, (hL id hid).2⟩
  | insertRun row =>
    obtain ⟨hspawns, job, runAt, wait, rfl⟩ := hs
    simp only [Stmt.exec] at hexec
    split at hexec
    · cases hexec
    · split at hexec
      · cases hexec
        exact ⟨hnow, hsaved, hrest, hstay (fun _ => rfl) fun _ => id⟩
      · cases hexec
        exact ⟨hnow.insertRun ⟨seq, ses.start, job, runAt, wait, rfl⟩ hspawns, hsaved, hrest,
          hstay (fun _ => rfl) fun _ => id⟩
  | insertJob row =>
    simp only [Stmt.exec] at hexec
    split at hexec
    · cases hexec
    · split at hexec
      · cases hexec
        exact ⟨hnow, hsaved, hrest, hstay (fun _ => rfl) fun _ => id⟩
      · cases hexec
        exact ⟨hnow.other id, hsaved, hrest, hstay (fun _ => rfl) fun _ => id⟩
  | updateJobs p set | updateEvents p set =>
    simp only [Stmt.exec] at hexec
    split at hexec
    · cases hexec
    · cases hexec
      exact ⟨hnow.other id, hsaved, hrest, hstay (fun _ => rfl) fun _ => id⟩
  | insertEvent row =>
    cases hexec
    exact ⟨hnow.other id, hsaved, hrest, hstay (fun _ => rfl) fun _ => id⟩
  | advisoryLock key =>
    simp only [Stmt.exec] at hexec
    split at hexec
    · cases hexec
    · cases hexec
      exact ⟨hnow, hsaved, hrest, hstay (fun _ => rfl) fun _ => id⟩
  | savepoint =>
    cases hexec
    refine ⟨hnow, fun ws held hws => ?_, hrest, fun hlocks => ?_⟩
    · cases hws
      exact hnow
    · obtain ⟨L, ⟨hmay, -⟩, -⟩ := hlocked hlocks
      exact hmay.elim
  | rollbackTo =>
    have hnone : k.locks = true → False := fun hlocks => by
      obtain ⟨L, ⟨hmay, -⟩, -⟩ := hlocked hlocks
      exact hmay
    simp only [Stmt.exec] at hexec
    split at hexec
    · cases hexec
      exact ⟨hnow, hsaved, hrest, fun hlocks => (hnone hlocks).elim⟩
    · next ws held hws =>
      cases hexec
      exact ⟨hsaved ws held hws, fun _ _ h => (by cases h), hrest, fun hlocks => (hnone hlocks).elim⟩
  | release =>
    cases hexec
    refine ⟨hnow, fun _ _ h => (by cases h), hrest, fun hlocks => ?_⟩
    obtain ⟨L, ⟨hmay, -⟩, -⟩ := hlocked hlocks
    exact hmay.elim
  | selectJobs p | loadJobs p | ancestors a b | selectRuns p | selectEvents p n =>
    cases hexec
    exact ⟨hnow, hsaved, hrest, hstay (fun _ => rfl) fun _ => id⟩

/-- One step: what a commit makes of the runs is what the updates of its transaction make of them. -/
theorem Rows.step (h : σ.Rows) (hσ : σ.Interleaved τ cfg) (hσ' : σ'.Interleaved τ cfg) {a : Act}
    (ha : a.stepwise) (hstep : σ.step cfg a = some σ') :
    σ'.Rows ∧ (σ'.tables = σ.tables ∨ ∃ (i : Nat) (o : Open), a = .commit i ∧
      σ.sessions[i]? = some (some o) ∧ σ'.tables = o.ses.view σ.tables ∧
      σ.tables.RunsMove o.kind.Becomes σ'.tables) := by
  cases a with
  | atomic k start pick => exact ha.elim
  | start k at_ =>
    simp only [Sys.step] at hstep
    split at hstep
    · cases hstep
      refine ⟨fun j o ho => ?_, .inl rfl⟩
      rcases get_append ho with ho | ⟨-, rfl⟩
      · exact h j o ho
      · exact ⟨.nil, fun _ _ hs => (by cases hs), k.runs cfg,
          fun hlocks => ⟨[], k.locksFirst hlocks cfg, fun _ hid => (by cases hid)⟩⟩
    · cases hstep
  | statement i pick =>
    simp only [Sys.step] at hstep
    split at hstep
    · next k s rest ses hi =>
      split at hstep
      · cases hstep
      · next r seq' ses' hexec =>
        cases hstep
        refine ⟨fun j o ho => ?_, .inl rfl⟩
        have hget := ho
        rcases get_set ho with ⟨rfl, heq⟩ | ⟨-, ho⟩
        · cases heq
          have hgood := hσ.good j _ hi
          exact rows_exec (h j _ hi) (hgood.kept.now.coherent hgood.fresh hσ.coherent).runs
            (hσ'.good j _ hget).kept hexec
        · exact h j o ho
    · cases hstep
  | commit i =>
    simp only [Sys.step] at hstep
    split at hstep
    · next k won ses hi =>
      cases hstep
      have hc := hσ.ends hi
      refine ⟨fun j o ho => ?_, .inr ⟨i, _, rfl, hi, rfl, (h i _ hi).now.moves⟩⟩
      rcases get_set ho with ⟨-, hnone⟩ | ⟨hj, ho⟩
      · cases hnone
      · have hgood := hσ.good j o ho
        exact rows_env (h j o ho) hgood.kept
          (hc.kept.now.others hc.fresh hgood.kept.now (hσ.apart i j _ o (Ne.symm hj) hi ho))
    · cases hstep
  | abort i =>
    simp only [Sys.step] at hstep
    split at hstep
    · cases hstep
      refine ⟨fun j o ho => ?_, .inl rfl⟩
      rcases get_set ho with ⟨-, hnone⟩ | ⟨-, ho⟩
      · cases hnone
      · exact h j o ho
    · cases hstep
  | crash runId jobId =>
    cases hstep
    exact ⟨h, .inl rfl⟩

/-- Only a commit changes the tables. -/
theorem stepwise_tables {a : Act} (ha : a.stepwise) (hstep : σ.step cfg a = some σ') :
    σ'.tables = σ.tables ∨ ∃ (i : Nat) (k : Kind) (won : Bool) (ses : Session), a = .commit i ∧
      σ.sessions[i]? = some (some ⟨k, .ret won, ses⟩) ∧ σ'.tables = ses.view σ.tables := by
  cases a with
  | atomic k start pick => exact ha.elim
  | start k at_ =>
    simp only [Sys.step] at hstep
    split at hstep <;> cases hstep
    exact .inl rfl
  | statement i pick =>
    simp only [Sys.step] at hstep
    split at hstep
    · split at hstep <;> cases hstep
      exact .inl rfl
    · cases hstep
  | commit i =>
    simp only [Sys.step] at hstep
    split at hstep
    · next k won ses hi =>
      cases hstep
      exact .inr ⟨i, k, won, ses, rfl, hi, rfl⟩
    · cases hstep
  | abort i =>
    simp only [Sys.step] at hstep
    split at hstep <;> cases hstep
    exact .inl rfl
  | crash runId jobId =>
    cases hstep
    exact .inl rfl

theorem Rows.init : Rows {} := fun i o h => by simp at h

/-! ### Transactions at once -/

theorem others_last {t : Tables} {seq : Seq} {sessions : List (Option Open)} {o : Option Open}
    {ws : List (Nat × Nat)} : others ⟨t, seq, sessions ++ [o], ws⟩ sessions.length =
      sessions.filterMap fun o => o.map (·.ses) := by
  rw [others, List.eraseIdx_append_of_length_le (Nat.le_refl _), Nat.sub_self, List.eraseIdx_cons_zero,
    List.append_nil]

theorem Steps.trans {ok : Sys → Act → Prop} {σ₁ : Sys} (h : Steps cfg ok σ σ₁)
    (h' : Steps cfg ok σ₁ σ') : Steps cfg ok σ σ' := by
  induction h' with
  | refl => exact h
  | step _ hok hstep ih => exact ih.step hok hstep

theorem get_last {sessions : List (Option Open)} {o : Option Open} :
    (sessions ++ [o])[sessions.length]? = some o := by
  rw [List.getElem?_append_right (Nat.le_refl _), Nat.sub_self]
  rfl

theorem set_last {sessions : List (Option Open)} {o o' : Option Open} :
    (sessions ++ [o]).set sessions.length o' = sessions ++ [o'] := by
  rw [List.set_append_right _ _ (Nat.le_refl _), Nat.sub_self]
  rfl

/-- A session that goes on alone comes to where its program does. -/
theorem run_steps {k : Kind} {pick : Nat → Bool} {t : Tables} {sessions : List (Option Open)}
    {ws : List (Nat × Nat)} {prog : Txn Bool} {seq seq' : Seq} {ses ses' : Session}
    {res : Except Err Bool}
    (hrun : prog.run (Stmt.exec pick (sessions.filterMap fun o => o.map (·.ses)) t) (seq, ses) =
      some (res, seq', ses')) : ∃ prog', (∀ won, res = .ok won → prog' = .ret won) ∧
        Steps cfg (fun _ a => a.within k) ⟨t, seq, sessions ++ [some ⟨k, prog, ses⟩], ws⟩
          ⟨t, seq', sessions ++ [some ⟨k, prog', ses'⟩], ws⟩ := by
  induction prog generalizing seq ses with
  | ret won =>
    cases hrun
    exact ⟨_, fun _ h => (by cases h; rfl), .refl⟩
  | raise e =>
    cases hrun
    exact ⟨_, fun _ h => (by cases h), .refl⟩
  | op s f ih =>
    simp only [Program.run, Option.bind_eq_some_iff] at hrun
    obtain ⟨⟨r, seq₁, ses₁⟩, hexec, hrest⟩ := hrun
    obtain ⟨prog', hend, hsteps⟩ := ih r hrest
    refine ⟨prog', hend, Steps.trans (.step (a := .statement sessions.length pick) .refl trivial ?_)
      hsteps⟩
    simp only [Sys.step, get_last, others_last, hexec, set_last]

/-- A transaction at once is a session whose statements follow each other. -/
theorem atomic_steps {k : Kind} {start : Int} {pick : Nat → Bool}
    (hstep : σ.step cfg (.atomic k start pick) = some σ') :
    Steps cfg (fun _ a => a.within k) σ { σ' with sessions := σ'.sessions ++ [none] } := by
  simp only [Sys.step] at hstep
  split at hstep
  · next hk =>
    have hbegin : Steps cfg (fun _ a => a.within k) σ
        ⟨σ.tables, σ.seq, σ.sessions ++ [some ⟨k, k.prog cfg, { start }⟩], k.taken σ.workers⟩ :=
      .step (a := .start k start) .refl rfl (by simp only [Sys.step, if_pos hk])
    split at hstep
    · cases hstep
    · next won seq ses hrun =>
      cases hstep
      obtain ⟨prog', hend, hsteps⟩ := run_steps hrun
      obtain rfl := hend won rfl
      refine (hbegin.trans hsteps).step (a := .commit σ.sessions.length) trivial ?_
      simp only [Sys.step, get_last, set_last]
    · next e seq ses hrun =>
      cases hstep
      obtain ⟨prog', -, hsteps⟩ := run_steps hrun
      refine (hbegin.trans hsteps).step (a := .abort σ.sessions.length) trivial ?_
      simp only [Sys.step, get_last, set_last]
  · cases hstep

/-- A run of the listed steps, if each is possible and satisfies `p`. -/
def checkActs (cfg : Config) (p : Sys → Act → Bool) (σ : Sys) : List Act → Option Sys
  | [] => some σ
  | a :: as => if p σ a then (σ.step cfg a).bind fun σ' => checkActs cfg p σ' as else none

theorem Reach.checkActs {ok : Sys → Act → Prop} {p : Sys → Act → Bool}
    (hp : ∀ σ a, p σ a = true → ok σ a) {as : List Act} (h : Reach cfg ok σ)
    (hrun : Sys.checkActs cfg p σ as = some σ') : Reach cfg ok σ' := by
  induction as generalizing σ with
  | nil =>
    cases hrun
    exact h
  | cons a as ih =>
    simp only [Sys.checkActs] at hrun
    split at hrun
    · next hpa =>
      obtain ⟨σ₁, hstep, hrest⟩ := Option.bind_eq_some_iff.mp hrun
      exact ih (h.step (hp _ _ hpa) hstep) hrest
    · cases hrun

end Sys

/-- Session `i`, from its begin to its commit after `n` statements that take every row. -/
def Act.session (i : Nat) (k : Kind) (at_ : Int) (n : Nat) : List Act :=
  .start k at_ :: (List.replicate n (.statement i fun _ => true) ++ [.commit i])

end TaskScheduler
