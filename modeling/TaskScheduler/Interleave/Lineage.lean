import TaskScheduler.Interleave.Recurring
import TaskScheduler.Interleave.Chains

/-! Where the runs come from, whatever interleaves.  A run of a chained job follows a run of its
trigger that has ended, so that it goes back, run by run, to a run of a job with a schedule of its
own; and no two runs have the same cause. -/

namespace TaskScheduler

open Lib

/-! ### The causes -/

/-- Every run of a chained job has the cause that it names, every other run names none, and no two
runs of a job have one cause. -/
structure Tables.Caused (t : Tables) : Prop where
  chained : ∀ r ∈ t.runs, ∀ j ∈ t.jobs, j.jobId = r.jobId → ∀ p, j.triggerOnJobId = some p →
    ∃ w ∈ t.runs, r.waitForRunId = some w.runId ∧ w.jobId = p ∧
      ∃ e ∈ t.events, e.runId = w.runId ∧ e.eventType.terminal = true
  driven : ∀ r ∈ t.runs, ∀ j ∈ t.jobs, j.jobId = r.jobId → j.triggerOnJobId = none →
    r.waitForRunId = none
  once : ∀ r ∈ t.runs, ∀ r' ∈ t.runs, r.jobId = r'.jobId → r.waitForRunId = r'.waitForRunId →
    (r.waitForRunId = none → r.scheduledAt = r'.scheduledAt) → r.runId = r'.runId

namespace Tables.Caused

variable {τ : Terms} {libs : Libs} {k : Kind} {held : Held} {loaded : List Job} {t t' : Tables}

/-- The rows of `t'` are later versions of those of `t`. -/
theorem aged (h : t.Caused) (hjobs : ∀ j' ∈ t'.jobs, ∃ j ∈ t.jobs, j.jobId = j'.jobId ∧
    j.triggerOnJobId = j'.triggerOnJobId) (hback : ∀ r' ∈ t'.runs, ∃ r ∈ t.runs, r.SameRun r')
    (hforth : ∀ r ∈ t.runs, ∃ r' ∈ t'.runs, r.SameRun r')
    (hevents : ∀ e ∈ t.events, ∃ e' ∈ t'.events, e.SameEvent e') : t'.Caused := by
  refine ⟨fun r' hr' j' hj' hid p hp => ?_, fun r' hr' j' hj' hid hnone => ?_,
    fun r' hr' s' hs' hjob hwait hat => ?_⟩
  · obtain ⟨r, hr, hrr⟩ := hback r' hr'
    obtain ⟨j, hj, hjid, htrig⟩ := hjobs j' hj'
    obtain ⟨w, hw, hwait, hwj, e, he, hew, hterm⟩ := h.chained r hr j hj
      (hjid.trans (hid.trans hrr.jobId)) p (htrig.trans hp)
    obtain ⟨w', hw', hww⟩ := hforth w hw
    obtain ⟨e', he', hee⟩ := hevents e he
    refine ⟨w', hw', ?_, hww.jobId.trans hwj, e', he', ?_, hee.eventType ▸ hterm⟩
    · rw [hrr.waitForRunId, hwait, hww.runId]
    · rw [hee.runId, hew, hww.runId]
  · obtain ⟨r, hr, hrr⟩ := hback r' hr'
    obtain ⟨j, hj, hjid, htrig⟩ := hjobs j' hj'
    rw [hrr.waitForRunId]
    exact h.driven r hr j hj (hjid.trans (hid.trans hrr.jobId)) (htrig.trans hnone)
  · obtain ⟨r, hr, hrr⟩ := hback r' hr'
    obtain ⟨s, hs, hss⟩ := hback s' hs'
    rw [hrr.jobId, hss.jobId] at hjob
    rw [hrr.waitForRunId, hss.waitForRunId] at hwait
    rw [hrr.waitForRunId, hrr.scheduledAt, hss.scheduledAt] at hat
    rw [hrr.runId, hss.runId]
    exact h.once r hr s hs hjob hwait hat

/-- A new run, of which the cause is known. -/
theorem addRun (h : t.Caused) {row : JobRun}
    (hchained : ∀ j ∈ t.jobs, j.jobId = row.jobId → ∀ p, j.triggerOnJobId = some p →
      ∃ w ∈ t.runs, row.waitForRunId = some w.runId ∧ w.jobId = p ∧
        ∃ e ∈ t.events, e.runId = w.runId ∧ e.eventType.terminal = true)
    (hdriven : ∀ j ∈ t.jobs, j.jobId = row.jobId → j.triggerOnJobId = none → row.waitForRunId = none)
    (hindex : ∀ x ∈ t.runs, x.jobId = row.jobId →
      (row.waitForRunId.isSome = true → x.waitForRunId ≠ row.waitForRunId) ∧
        (row.waitForRunId = none → x.waitForRunId = none → x.scheduledAt ≠ row.scheduledAt)) :
    ({ t with runs := t.runs ++ [row] } : Tables).Caused := by
  -- no run has the cause of the new one
  have hnew : ∀ x ∈ t.runs, x.jobId = row.jobId → x.waitForRunId = row.waitForRunId →
      (x.waitForRunId = none → x.scheduledAt = row.scheduledAt) → False := by
    intro x hx hjob hwait hat
    obtain ⟨hcause, htick⟩ := hindex x hx hjob
    cases hrow : row.waitForRunId with
    | some w => exact hcause (by rw [hrow]; rfl) hwait
    | none =>
      have hnone := hwait.trans hrow
      exact htick hrow hnone (hat hnone)
  refine ⟨fun r hr j hj hid p hp => ?_, fun r hr j hj hid hnone => ?_,
    fun r hr s hs hjob hwait hat => ?_⟩
  · have hcause : ∃ w ∈ t.runs, r.waitForRunId = some w.runId ∧ w.jobId = p ∧
        ∃ e ∈ t.events, e.runId = w.runId ∧ e.eventType.terminal = true := by
      rcases List.mem_append.mp hr with hr | hr
      · exact h.chained r hr j hj hid p hp
      · rw [List.mem_singleton.mp hr] at hid ⊢
        exact hchained j hj hid p hp
    obtain ⟨w, hw, hrest⟩ := hcause
    exact ⟨w, List.mem_append_left _ hw, hrest⟩
  · rcases List.mem_append.mp hr with hr | hr
    · exact h.driven r hr j hj hid hnone
    · rw [List.mem_singleton.mp hr] at hid ⊢
      exact hdriven j hj hid hnone
  · rcases List.mem_append.mp hr with hr | hr <;> rcases List.mem_append.mp hs with hs | hs
    · exact h.once r hr s hs hjob hwait hat
    · rw [List.mem_singleton.mp hs] at hjob hwait hat
      exact (hnew r hr hjob hwait hat).elim
    · rw [List.mem_singleton.mp hr] at hjob hwait hat
      exact (hnew s hs hjob.symm hwait.symm fun hnone => (hat (hwait.trans hnone)).symm).elim
    · rw [List.mem_singleton.mp hr, List.mem_singleton.mp hs]

/-- A new job has no runs yet. -/
theorem addJob (h : t.Caused) {row : Job} (hfresh : ∀ r ∈ t.runs, r.jobId ≠ row.jobId) :
    ({ t with jobs := t.jobs ++ [row] } : Tables).Caused := by
  refine ⟨fun r hr j hj hid p hp => ?_, fun r hr j hj hid hnone => ?_, h.once⟩
  · rcases List.mem_append.mp hj with hj | hj
    · exact h.chained r hr j hj hid p hp
    · rw [List.mem_singleton.mp hj] at hid
      exact absurd hid.symm (hfresh r hr)
  · rcases List.mem_append.mp hj with hj | hj
    · exact h.driven r hr j hj hid hnone
    · rw [List.mem_singleton.mp hj] at hid
      exact absurd hid.symm (hfresh r hr)

/-- A run that a session inserts beside jobs that it knows. -/
theorem insertRun (h : t.Caused) (hk : k.creates = false) (hl : Linked t) (hknows : t.Knows loaded)
    {row : JobRun} (hw : NewRun τ libs k held loaded t row) :
    ({ t with runs := t.runs ++ [row] } : Tables).Caused := by
  refine h.addRun (fun j hj hid p hp => ?_) (fun j hj hid hnone => ?_) hw.index
  · cases hw.source with
    | initial hinitial =>
      rw [hk] at hinitial
      cases hinitial
    | successor hc hcid hlive hcron =>
      -- a job with a schedule has no trigger
      obtain ⟨hcj, -, -⟩ := hknows _ hc j hj (hcid.trans hid.symm)
      have hnone := (hl.lifecycle j hj).chained (by rw [hp]; rfl)
      rw [← hcj, hcron] at hnone
      cases hnone
    | upstream hc hcid hactive htrigger hpl hpid hlive he hterminal hwait =>
      obtain ⟨-, -, htrig⟩ := hknows _ hc j hj (hcid.trans hid.symm)
      obtain ⟨w, hw, hwe, hwj⟩ := hl.event_run _ he
      refine ⟨w, hw, hwait.trans (congrArg some hwe.symm), ?_, _, he, hwe.symm, hterminal⟩
      rw [← htrig, htrigger, Option.some.injEq] at hp
      exact hwj.trans hp
  · cases hw.source with
    | initial hinitial hwait => exact hwait
    | successor hc hcid hlive hcron hwait => exact hwait
    | upstream hc hcid hactive htrigger =>
      obtain ⟨-, -, htrig⟩ := hknows _ hc j hj (hcid.trans hid.symm)
      rw [← htrig, htrigger] at hnone
      cases hnone

/-- The other writes of a session. -/
theorem apply (h : t.Caused) {w : Write} (hw : Valid τ libs k held loaded t w)
    (hrun : ∀ row, w ≠ .insertRun row) (hjob : ∀ row, w ≠ .insertJob row) : (w.apply t).Caused := by
  have hsame : ∀ j ∈ t.jobs, ∃ i ∈ t.jobs, i.jobId = j.jobId ∧ i.triggerOnJobId = j.triggerOnJobId :=
    fun j hj => ⟨j, hj, rfl, rfl⟩
  have hback : ∀ r ∈ t.runs, ∃ r' ∈ t.runs, r'.SameRun r := fun r hr => ⟨r, hr, .refl r⟩
  have hforth : ∀ r ∈ t.runs, ∃ r' ∈ t.runs, r.SameRun r' := fun r hr => ⟨r, hr, .refl r⟩
  have hevent : ∀ e ∈ t.events, ∃ e' ∈ t.events, e.SameEvent e' := fun e he => ⟨e, he, .refl e⟩
  cases w with
  | insertRun row => exact absurd rfl (hrun row)
  | insertJob row => exact absurd rfl (hjob row)
  | updateJobs ids set =>
    refine h.aged (fun j' hj' => ?_) hback hforth hevent
    obtain ⟨j, hj, rfl⟩ := List.mem_map.mp hj'
    refine ⟨j, hj, ?_⟩
    split
    · obtain ⟨hid, htrig, -⟩ := sameDef_set hw.2.2.1 j
      exact ⟨hid.symm, htrig.symm⟩
    · exact ⟨rfl, rfl⟩
  | updateRuns ids set =>
    refine h.aged hsame (fun r' hr' => ?_) (fun r hr => ?_) hevent
    · obtain ⟨r, hr, rfl⟩ := List.mem_map.mp hr'
      refine ⟨r, hr, ?_⟩
      split
      · exact hw.1 r
      · exact .refl r
    · refine ⟨_, List.mem_map.mpr ⟨r, hr, rfl⟩, ?_⟩
      split
      · exact hw.1 r
      · exact .refl r
  | insertEvent row =>
    exact h.aged hsame hback hforth fun e he => ⟨e, List.mem_append_left _ he, .refl e⟩
  | updateEvents ids set =>
    obtain ⟨e₀, by_, -, rfl, -⟩ := hw
    refine h.aged hsame hback hforth fun e he => ⟨_, List.mem_map.mpr ⟨e, he, rfl⟩, ?_⟩
    split <;> rfl

end Tables.Caused

/-- A commit of a transaction that is no creation. -/
theorem Commits.caused {libs : Libs} {k : Kind} {t : Tables} {seq : Seq} {ses : Session} {won : Bool}
    (hc : Commits .free libs k t seq ses won) (hcoh : Coherent t seq) (hk : k.creates = false)
    (h : t.Caused) : (ses.view t).Caused := by
  have hend := hc.kept.now.replays.invariant
    (P := fun t' => t'.Caused ∧ Linked t' ∧ t'.Knows ses.loaded) (fun t' w _ hI hw => ?_)
    ⟨h, hcoh.linked, hc.kept.now.knows hcoh hk⟩
  · exact hend.1
  · refine ⟨?_, hI.2.1.apply hw, hI.2.2.apply hk hw⟩
    cases w with
    | insertJob row =>
      have hcreates := hw.1
      rw [hk] at hcreates
      cases hcreates
    | insertRun row => exact hI.1.insertRun hk hI.2.1 hI.2.2 hw
    | _ => exact hI.1.apply hw (fun _ h => by cases h) fun _ h => by cases h

/-! ### The writes of a session -/

/-- Whatever the statement writes satisfies `Q`. -/
def Stmt.Makes (Q : Write → Prop) : Stmt → Prop
  | .insertJob row => ∀ seq start, Q (.insertJob (storedJob seq start row))
  | .updateJobs _ set => ∀ ids, Q (.updateJobs ids set)
  | .insertRun row => ∀ seq start, Q (.insertRun (storedRun seq start row))
  | .updateRuns p set => ∀ ids : List Nat, (∀ id ∈ ids, ∃ r, p r = true ∧ r.runId = id) →
    Q (.updateRuns ids set)
  | .insertEvent row => ∀ seq start, Q (.insertEvent (storedEvent seq start row))
  | .updateEvents _ set => ∀ ids, Q (.updateEvents ids set)
  | _ => True

/-- The writes of the session satisfy `Q`, now and at its savepoint. -/
structure Session.Made (Q : Write → Prop) (ses : Session) : Prop where
  now : ∀ w ∈ ses.writes, Q w
  saved : ∀ ws held, ses.saved = some (ws, held) → ∀ w ∈ ws, Q w

theorem exec_made {Q : Write → Prop} {pick : Nat → Bool} {others : List Session} {t : Tables}
    (s : Stmt) (d : Seq × Session) (r : Reply s) (d' : Seq × Session) (hs : s.Makes Q)
    (h : d.2.Made Q) (hexec : s.exec pick others t d = some (r, d')) : d'.2.Made Q := by
  obtain ⟨seq, ses⟩ := d
  obtain ⟨hnow, hsaved⟩ := h
  dsimp only at hnow hsaved
  have hwrite : ∀ w : Write, Q w → ∀ v ∈ ses.writes ++ [w], Q v := by
    intro w hw v hv
    rcases List.mem_append.mp hv with hv | hv
    · exact hnow v hv
    · exact List.mem_singleton.mp hv ▸ hw
  cases s with
  | insertJob row | insertRun row =>
    simp only [Stmt.exec] at hexec
    split at hexec
    · cases hexec
    · split at hexec <;> cases hexec
      · exact ⟨hnow, hsaved⟩
      · exact ⟨hwrite _ (hs seq ses.start), hsaved⟩
  | updateJobs p set | updateEvents p set =>
    simp only [Stmt.exec] at hexec
    split at hexec <;> cases hexec
    exact ⟨hwrite _ (hs _), hsaved⟩
  | updateRuns p set =>
    simp only [Stmt.exec] at hexec
    split at hexec <;> cases hexec
    refine ⟨hwrite _ (hs _ fun id hid => ?_), hsaved⟩
    obtain ⟨r, hr, rfl⟩ := List.mem_map.mp hid
    exact ⟨r, (List.mem_filter.mp hr).2, rfl⟩
  | insertEvent row =>
    cases hexec
    exact ⟨hwrite _ (hs seq ses.start), hsaved⟩
  | advisoryLock key =>
    simp only [Stmt.exec] at hexec
    split at hexec <;> cases hexec
    exact ⟨hnow, hsaved⟩
  | savepoint =>
    cases hexec
    refine ⟨hnow, fun ws held heq => ?_⟩
    cases heq
    exact hnow
  | rollbackTo =>
    simp only [Stmt.exec] at hexec
    split at hexec
    · cases hexec
      exact ⟨hnow, hsaved⟩
    · next ws held heq =>
      cases hexec
      exact ⟨hsaved ws held heq, fun _ _ hnone => by cases hnone⟩
  | release =>
    cases hexec
    exact ⟨hnow, fun _ _ hnone => by cases hnone⟩
  | selectJobs p | loadJobs p | ancestors a b | selectRuns p | lockRuns p n | selectEvents p n =>
    cases hexec
    exact ⟨hnow, hsaved⟩

/-! ### Creation -/

/-- The write keeps to the trigger of the creation: a chained job gets no first run. -/
def Write.Plans (args : CreateArgs) : Write → Prop
  | .insertJob row => row.triggerOnJobId = args.triggerOnJobId
  | .insertRun row => args.triggerOnJobId = none ∧ row.waitForRunId = none
  | _ => True

theorem createJob_plans (libs : Libs) (now : Int) (args : CreateArgs) :
    (createJob libs now args).Issues (Stmt.Makes (Write.Plans args)) := by
  have hspawn : args.triggerOnJobId = none → ∀ job runAt,
      (materializeInitial job runAt).Issues (Stmt.Makes (Write.Plans args)) := by
    intro hnone job runAt
    unfold materializeInitial spawnRun
    refine .bind ⟨trivial, fun _ => trivial⟩ fun _ => ?_
    refine .bind (.bind ⟨trivial, fun _ => trivial⟩ fun _ => trivial) fun _ => ?_
    refine .ite (fun _ => trivial) fun _ =>
      .bind ⟨fun _ _ => ⟨hnone, rfl⟩, fun _ => trivial⟩ fun inserted => ?_
    split
    · trivial
    · exact .bind ⟨fun _ _ => trivial, fun _ => trivial⟩ fun _ => trivial
  have hinsert : ∀ plan, (insertNewJob args plan).Issues (Stmt.Makes (Write.Plans args)) := by
    intro plan
    unfold insertNewJob
    refine .bind ⟨fun _ _ => rfl, fun _ => trivial⟩ fun inserted => ?_
    split
    · trivial
    · refine .ite (fun hnone => .bind (hspawn (Option.isNone_iff_eq_none.mp hnone) _ _) fun res => ?_)
        fun _ => trivial
      split <;> trivial
  unfold createJob
  split
  · trivial
  · next plan _ =>
    refine .bind ?_ fun found => ?_
    · unfold existingJob
      split
      · trivial
      · exact .bind ⟨trivial, fun _ => trivial⟩ fun _ => trivial
    · split
      · trivial
      · unfold createNew
        split
        · exact hinsert plan
        · refine .bind ?_ fun _ => hinsert plan
          unfold validateChain
          refine .bind ⟨trivial, fun _ => trivial⟩ fun rows => ?_
          split
          · trivial
          · refine .ite (fun _ => trivial) fun _ => .ite (fun _ => trivial) fun _ => ?_
            refine .bind ⟨trivial, fun _ => trivial⟩ fun _ => ?_
            exact .ite (fun _ => trivial) fun _ => .ite (fun _ => trivial) fun _ => trivial

/-- The commit of a creation: a new job has no runs but its first, and a chained one has none. -/
theorem Commits.caused_create {libs : Libs} {now : Int} {args : CreateArgs} {t : Tables} {seq : Seq}
    {ses : Session} {won : Bool} (hc : Commits .free libs (.create now args) t seq ses won)
    (hcoh : Coherent t seq) (hplans : ses.Made (Write.Plans args)) (h : t.Caused) :
    (ses.view t).Caused := by
  have hreplays := hc.kept.now.replays
  rcases hc.ends with ⟨hnil, -⟩ | ⟨row, rest, hwrites, -, -, hrest⟩
  · unfold Session.view
    rw [show ses.writes = [] from hnil]
    exact h
  · change ses.writes = _ at hwrites
    have hmem : .insertJob row ∈ ses.writes := hwrites ▸ List.mem_cons_self
    have hnew : ∀ j ∈ t.jobs, j.jobId ≠ row.jobId := hc.fresh.jobs row hmem
    have hplan : row.triggerOnJobId = args.triggerOnJobId := hplans.now _ hmem
    unfold Session.view
    change Replays _ _ ses.writes t at hreplays
    rw [hwrites] at hreplays ⊢
    obtain ⟨hfirst, hreplays⟩ := hreplays
    -- the rest are the first run of the new job and events
    have hend := hreplays.invariant (P := fun t' => t'.Caused ∧
      ∀ j ∈ t'.jobs, j.jobId = row.jobId → j.triggerOnJobId = args.triggerOnJobId)
      (fun t' w hw hI hv => ?_) ⟨?_, ?_⟩
    · exact hend.1
    · rcases hrest w hw with ⟨r, rfl, hrj⟩ | ⟨e, rfl⟩
      · obtain ⟨hnone, hwait⟩ : args.triggerOnJobId = none ∧ r.waitForRunId = none :=
          hplans.now (.insertRun r) (hwrites ▸ List.mem_cons_of_mem _ hw)
        refine ⟨hI.1.addRun (fun j hj hid p hp => ?_) (fun _ _ _ _ => hwait) hv.index, hI.2⟩
        rw [hI.2 j hj (hid.trans hrj), hnone] at hp
        cases hp
      · exact ⟨hI.1.apply hv (fun _ h => (by cases h)) fun _ h => (by cases h), hI.2⟩
    · refine h.addJob fun r hr hid => ?_
      obtain ⟨j, hj, hjid⟩ := hcoh.run_job r hr
      exact hnew j hj (hjid.trans hid)
    · intro j hj hid
      rcases List.mem_append.mp hj with hj | hj
      · exact absurd hid (hnew j hj)
      · rw [List.mem_singleton.mp hj, hplan]

/-- What the writes of a transaction keep to. -/
def Kind.Plans : Kind → Write → Prop
  | .create _ args, w => w.Plans args
  | _, _ => True

theorem Kind.plans (cfg : Config) (k : Kind) : (k.prog cfg).Issues (Stmt.Makes k.Plans) := by
  cases k with
  | create now args => exact (createJob_plans cfg.libs now args).bind fun _ => trivial
  | _ =>
    refine Program.Issues.of_all (fun s => ?_) _
    cases s <;> simp [Stmt.Makes, Kind.Plans]

/-! ### The system -/

namespace Sys

variable {cfg : Config} {σ σ' : Sys}

/-- The transaction that the step ends, at once or as an open session. -/
def ends (σ : Sys) (k : Kind) : Act → Prop
  | .atomic k' _ _ => k' = k ∧ k.enabled σ = true
  | .commit i => ∃ o, σ.sessions[i]? = some (some o) ∧ o.kind = k
  | _ => False

/-- What an open session has written, it has written as the program of its kind does. -/
theorem Reach.made {ok : Sys → Act → Prop} {Q : Kind → Write → Prop}
    (hQ : ∀ k : Kind, (k.prog cfg).Issues (Stmt.Makes (Q k))) (h : Reach cfg ok σ) {i : Nat}
    {o : Open} (ho : σ.sessions[i]? = some (some o)) : o.ses.Made (Q o.kind) :=
  (h.sessions (P := fun k => Stmt.Makes (Q k)) (I := fun k ses => ses.Made (Q k))
    (fun _ k at_ _ => ⟨hQ k, by simp, by simp⟩)
    (fun _ s _ _ _ _ _ r _ _ hs hI hexec => exec_made s _ r _ hs hI hexec) ho).2

/-- What a step commits, it has written as the program of its kind does. -/
theorem Reach.step_made {ok : Sys → Act → Prop} {Q : Kind → Write → Prop}
    (hQ : ∀ k : Kind, (k.prog cfg).Issues (Stmt.Makes (Q k))) (h : Reach cfg ok σ) {a : Act}
    (hstep : σ.step cfg a = some σ') : σ'.tables = σ.tables ∨ ∃ k seq ses won,
      Commits .free cfg.libs k σ.tables seq ses won ∧ Coherent σ.tables seq ∧ ses.Made (Q k) ∧
        σ'.tables = ses.view σ.tables ∧ σ.ends k a := by
  have hint := h.interleaved
  cases a with
  | atomic k start pick =>
    obtain ⟨henabled, ⟨seq, -, rfl⟩ | ⟨won, seq, ses, hrun, rfl⟩⟩ := step_atomic hstep
    · exact .inl rfl
    · have hc := (hint.atomic henabled (fun _ => True) trivial
        (fun _ _ _ _ _ _ _ _ _ _ => trivial) hrun).2.2.2 won rfl
      have hkeep : ∀ (s : Stmt) (d : Seq × Session) r d', s.Makes (Q k) → d.2.Made (Q k) →
          s.exec pick σ.open_ σ.tables d = some (r, d') → d'.2.Made (Q k) := exec_made
      have hmade : ses.Made (Q k) :=
        (hQ k).run (I := fun d => d.2.Made (Q k)) hkeep ⟨by simp, by simp⟩ hrun
      exact .inr ⟨k, seq, ses, won, hc, hint.coherent.burn (run_seq_le _ _ hrun), hmade, rfl, rfl,
        henabled⟩
  | commit i =>
    simp only [Sys.step] at hstep
    split at hstep
    · next k won ses hi =>
      cases hstep
      exact .inr ⟨k, σ.seq, ses, won, hint.ends hi, hint.coherent, h.made hQ hi, rfl, _, hi, rfl⟩
    · cases hstep
  | start k at_ | statement i pick | abort i | crash runId jobId =>
    rcases step_tables hint hstep with heq | ⟨_, _, _, _, -, hk, -⟩
    · exact .inl heq
    · cases hk

/-- Every run has its cause, in every state that is reached, whatever interleaves. -/
theorem Reach.caused {ok : Sys → Act → Prop} (h : Reach cfg ok σ) : σ.tables.Caused := by
  induction h with
  | init => exact ⟨fun r hr => (by cases hr), fun r hr => (by cases hr), fun r hr => (by cases hr)⟩
  | @step σ σ' a hreach hok hstep ih =>
    rcases hreach.step_made (Kind.plans cfg) hstep with heq | ⟨k, seq, ses, won, hc, hcoh, hmade, heq, -⟩
    · exact heq ▸ ih
    rw [heq]
    cases hk : k.creates with
    | false => exact hc.caused hcoh hk ih
    | true =>
      cases k with
      | create now args => exact hc.caused_create hcoh hmade ih
      | _ => cases hk

end Sys

/-- The run goes back in `n` steps, each from a run of a chained job to a run of its trigger that
has ended, to a run of a job with a schedule of its own. -/
inductive Tables.Lineage (t : Tables) : Nat → JobRun → Prop
  | driven {j : Job} {r : JobRun} (hj : j ∈ t.jobs) (hid : j.jobId = r.jobId)
    (htrigger : j.triggerOnJobId = none) (hwait : r.waitForRunId = none) : Lineage t 1 r
  | caused {j : Job} {r w : JobRun} {e : RunEvent} {n : Nat} (hj : j ∈ t.jobs)
    (hid : j.jobId = r.jobId) (hw : w ∈ t.runs) (htrigger : j.triggerOnJobId = some w.jobId)
    (hwait : r.waitForRunId = some w.runId) (he : e ∈ t.events) (hrun : e.runId = w.runId)
    (hterminal : e.eventType.terminal = true) (h : Lineage t n w) : Lineage t (n + 1) r

/-- The lineage of a run is as long as the chain of its job. -/
theorem Tables.Caused.lineage {t : Tables} (h : t.Caused) {n id : Nat} (hc : Chained t.jobs n id) :
    ∀ r ∈ t.runs, r.jobId = id → t.Lineage n r := by
  induction hc with
  | @root j hj hnone => exact fun r hr hid => .driven hj hid.symm hnone (h.driven r hr j hj hid.symm hnone)
  | @link j n p hj hp _ ih =>
    intro r hr hid
    obtain ⟨w, hw, hwait, rfl, e, he, hrun, hterm⟩ := h.chained r hr j hj hid.symm p hp
    exact .caused hj hid.symm hw hp hwait he hrun hterm (ih w hw rfl)

/-- Whatever interleaves, statement by statement: every run goes back, through ended runs of the
triggers of its chain, to a run of a scheduled job, after ten runs at most; and a job has one run at
most for each run of its trigger, and for each tick of its schedule. -/
theorem Sys.run_lineage {cfg : Config} {ok : Sys → Act → Prop} {σ : Sys} (h : Sys.Reach cfg ok σ) :
    (∀ r ∈ σ.tables.runs, ∃ n ≤ 10, σ.tables.Lineage n r) ∧
    ∀ r ∈ σ.tables.runs, ∀ r' ∈ σ.tables.runs, r.jobId = r'.jobId →
      r.waitForRunId = r'.waitForRunId →
      (r.waitForRunId = none → r.scheduledAt = r'.scheduledAt) → r = r' := by
  refine ⟨fun r hr => ?_, fun r hr r' hr' hjob hwait hat => ?_⟩
  · obtain ⟨j, hj, hid⟩ := h.interleaved.coherent.run_job r hr
    obtain ⟨n, hn, hc⟩ := h.chains j hj
    exact ⟨n, hn, h.caused.lineage hc r hr hid.symm⟩
  · exact h.interleaved.coherent.run_eq hr hr' (h.caused.once r hr r' hr' hjob hwait hat)

/-- Two consumers have read the end of the same run of a trigger; the second one goes on after the
first has committed. -/
def forkRun : List Act :=
  [.at 0 (.create 0 (.echo none none none)),
    .at second (.create second (.echo none (some 1) (some "SUCCEEDED"))),
    .at second (.publish second 10),
    .at (2 * second) (.claim (2 * second) 1 1),
    .at (3 * second) (.finish (3 * second) 1 1 .success),
    .start (.poll (4 * second) 10) (4 * second),
    .start (.poll (4 * second) 10) (4 * second)] ++
    List.replicate 3 (.statement 1 fun _ => true) ++ List.replicate 14 (.statement 0 fun _ => true) ++
    [.commit 0] ++ List.replicate 10 (.statement 1 fun _ => true) ++ [.commit 1]

theorem forkRun_lineage : ∃ σ, Sys.runActs .minutely {} forkRun = some σ ∧
    σ.tables.runs.map (fun r => (r.jobId, r.runId, r.waitForRunId)) =
      [(1, 1, none), (2, 2, some 1)] ∧
    ∀ r ∈ σ.tables.runs, ∃ n ≤ 10, σ.tables.Lineage n r := by
  have hrun : (Sys.runActs .minutely {} forkRun).map (fun σ =>
      σ.tables.runs.map fun r => (r.jobId, r.runId, r.waitForRunId)) =
      some [(1, 1, none), (2, 2, some 1)] := by decide +kernel
  obtain ⟨σ, hσ, hruns⟩ := Option.map_eq_some_iff.mp hrun
  have hreach : Sys.Reach .minutely (fun _ _ => True) σ :=
    Sys.Reach.init.runActs (fun _ _ _ => trivial) hσ
  exact ⟨σ, hσ, hruns, (Sys.run_lineage hreach).1⟩

end TaskScheduler
