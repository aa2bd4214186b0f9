import TaskScheduler.Interleave.Lineage
import TaskScheduler.Interleave.Logs

/-! The order of the runs of a job, under interleaving transactions.  A run sorts by the time at which
it is due until a claim sorts it by its start, so that the order holds as far as the clocks of the
claims, the ends of the upstream runs and the ticks of the schedules agree. -/

namespace TaskScheduler

open Lib

/-- In each job, a run that executes has a larger key than every other run. -/
def Tables.LiveLatest (t : Tables) : Prop :=
  ∀ r ∈ t.runs, r.status.executing = true → ∀ x ∈ t.runs, x.jobId = r.jobId → x.runId ≠ r.runId →
    x.latestKey < r.latestKey

/-! ### What is asked of the times -/

/-- The runs of the job sort before the time `at_`. -/
def Tables.SortBefore (t : Tables) (jobId : Nat) (at_ : Int) : Prop :=
  ∀ x ∈ t.runs, x.jobId = jobId → x.latestKey < at_

/-- The runs of the job sort before the time at which its next one is due: the end of the run that
the next one follows, or a tick of the job's schedule after one of its runs has ended, if the job
has no run at that tick. -/
def Tables.DueLast (libs : Libs) (t : Tables) (jobId : Nat) : Option Nat → Prop
  | some runId => ∀ e ∈ t.events, e.eventType.terminal = true → e.runId = runId →
    t.SortBefore jobId e.occurredAt
  | none => ∀ j ∈ t.jobs, j.jobId = jobId → ∀ prev ∈ t.runs, prev.jobId = jobId →
    ∀ e ∈ t.events, e.eventType.terminal = true → e.runId = prev.runId → ∀ cron ∈ j.cronExpr,
    ∀ tick ∈ nextAfter libs cron j.zone (successorAnchor prev e.occurredAt),
    (∀ x ∈ t.runs, x.jobId = jobId → x.waitForRunId = none → x.scheduledAt ≠ tick) →
    t.SortBefore jobId tick

/-- The runs that the writes insert. -/
def insertedRuns (ws : List Write) : List JobRun :=
  ws.filterMap fun
    | .insertRun row => some row
    | _ => none

/-- What is asked of a transaction when it commits over `t`: a claim comes after the other runs of
its job, by its clock; a retry is written over a run that executes; and what the consumer creates is
due after the runs of its job. -/
def Open.InOrder (libs : Libs) (t : Tables) (o : Open) : Prop :=
  match o.kind with
  | .claim now runId _ => runId ∈ o.ses.held.runs → ∀ r ∈ t.runs, r.runId = runId →
    ∀ x ∈ t.runs, x.jobId = r.jobId → x.runId ≠ runId → x.latestKey < now
  | .finish _ runId _ outcome => outcome.status.executing = true → ∀ r ∈ t.runs, r.runId = runId →
    r.status.executing = true
  | .poll _ _ | .deliver _ _ => ∀ row ∈ insertedRuns o.ses.writes,
    t.DueLast libs row.jobId row.waitForRunId
  | _ => True

/-- Every transaction that commits has its times in order.  Transactions are sessions here, see
`atomic_steps`. -/
def Sys.KeysInOrder (libs : Libs) (σ : Sys) : Act → Prop
  | .atomic _ _ _ => False
  | .commit i => ∀ o, σ.sessions[i]? = some (some o) → o.InOrder libs σ.tables
  | _ => True

/-! ### Updates -/

theorem Outcome.write_latestKey (now : Int) (outcome : Outcome) (r : JobRun) :
    (outcome.write now r).latestKey = r.latestKey := by
  cases outcome with
  | returned res =>
    simp only [Outcome.write]
    split
    · rfl
    · split <;> rfl
  | raised message | invalid message eventData => rfl

/-- Only a claim gives a run another key, its clock, and only while the run executes. -/
theorem Kind.Becomes.latestKey {k : Kind} {c v : JobRun} (h : k.Becomes c v) :
    v.latestKey = c.latestKey ∨ c.status.executing = true ∧
      ∃ now jobId, k = .claim now c.runId jobId ∧ v.latestKey = now := by
  induction h with
  | refl => exact .inl rfl
  | @update p set v hv hset hp _ _ ih =>
    cases hset with
    | @claim now runId jobId =>
      simp only [Bool.and_eq_true, beq_iff_eq, RunStatus.claimable_eq_cancellable] at hp
      obtain ⟨hid, hlive⟩ := hp
      refine .inr ⟨?_, now, jobId, ?_, rfl⟩
      · exact (hv.executing (RunStatus.executing_of_cancellable hlive)).resolve_right fun h => h
      · rw [← hv.sameRun.runId, hid]
    | finish =>
      rw [Outcome.write_latestKey]
      exact ih
    | _ => exact ih

/-- What the write after the work makes of a run. -/
theorem Kind.Becomes.written {now : Int} {runId jobId : Nat} {outcome : Outcome} {c v : JobRun}
    (h : (Kind.finish now runId jobId outcome).Becomes c v) :
    v = c ∨ c.runId = runId ∧ v.status = outcome.status := by
  induction h with
  | refl => exact .inl rfl
  | @update p set v hv hset hp _ _ ih =>
    cases hset with
    | finish =>
      refine .inr ⟨?_, Outcome.write_status now outcome v⟩
      rw [← hv.sameRun.runId]
      exact beq_iff_eq.mp hp

section Commit

variable {libs : Libs} {k : Kind} {prog : Txn Bool} {t t' : Tables} {seq : Seq} {ses : Session}
  {won : Bool}

/-- A transaction in order lets no run execute again after its end. -/
theorem Open.InOrder.noRevival (h : Open.InOrder libs t ⟨k, prog, ses⟩)
    (hr : RowsKept k t ses.writes) (hnodup : ((ses.view t).runs.map (·.runId)).Nodup) :
    NoRevival t (ses.view t) := by
  intro c hc v hv hid hlive
  have hbecomes := hr.seen hnodup hc hv hid
  cases k with
  | finish now runId jobId outcome =>
    rcases hbecomes.written with rfl | ⟨hrun, hstatus⟩
    · exact hlive
    · rw [hstatus] at hlive
      exact h hlive c hc hrun
  | _ => exact (hbecomes.executing hlive).resolve_right fun h => h

/-- A run that a session has changed is locked. -/
theorem Commits.held_of_ne (hc : Commits .steady libs k t seq ses won) {c : JobRun}
    (hne : Write.onRun ses.writes c ≠ c) : c.runId ∈ ses.held.runs := by
  refine Classical.byContradiction fun hfree => hne (Write.onRun_eq fun ids set hw hid => ?_)
  exact hfree (hc.kept.now.ids_held hw _ hid)

/-- A commit that only updates runs. -/
theorem Tables.LiveLatest.update (h : t.LiveLatest) (hc : Commits .steady libs k t seq ses won)
    (hin : Open.InOrder libs t ⟨k, prog, ses⟩) (hr : RowsKept k t ses.writes)
    (hnodup : ((ses.view t).runs.map (·.runId)).Nodup) (hk : k.spawns = false) :
    (ses.view t).LiveLatest := by
  have hold : ∀ v ∈ (ses.view t).runs, ∃ c ∈ t.runs, v = Write.onRun ses.writes c := by
    intro v hv
    have hv : v ∈ t.runs.map (Write.onRun ses.writes) ++ Write.newRuns ses.writes :=
      Write.applyAll_runs ses.writes t ▸ hv
    rcases List.mem_append.mp hv with hv | hv
    · obtain ⟨c, hcr, rfl⟩ := List.mem_map.mp hv
      exact ⟨c, hcr, rfl⟩
    · rw [(hr.new v hv).2] at hk
      cases hk
  intro v hv hlive x hx hjob hne
  obtain ⟨c, hcr, rfl⟩ := hold v hv
  obtain ⟨d, hdr, rfl⟩ := hold x hx
  have hcv := hr.old c hcr
  have hdx := hr.old d hdr
  have hclive := hin.noRevival hr hnodup c hcr _ hv hcv.sameRun.runId hlive
  rw [hcv.sameRun.jobId, hdx.sameRun.jobId] at hjob
  rw [hcv.sameRun.runId, hdx.sameRun.runId] at hne
  have hbefore := h c hcr hclive d hdr hjob hne
  rcases hdx.latestKey with hdkey | ⟨hdlive, -⟩
  · rcases hcv.latestKey with hckey | ⟨-, now, jobId, rfl, hckey⟩
    · omega
    · -- the claim has given the run its new key, or left it as it was
      by_cases hsame : Write.onRun ses.writes c = c
      · rw [hsame, hdkey]
        exact hbefore
      · rw [hdkey, hckey]
        exact hin (hc.held_of_ne hsame) c hcr rfl d hdr hjob hne
  · -- two runs of one job do not execute at once
    have hafter := h d hdr hdlive c hcr hjob.symm (Ne.symm hne)
    omega

/-! ### New runs -/

/-- A write of a transaction that creates runs: it changes none, and records no end of one. -/
def Write.Spawns : Write → Prop
  | .insertRun row => row.startAt = none
  | .updateRuns _ _ => False
  | .insertEvent row => row.eventType.terminal = false
  | _ => True

theorem Kind.spawning (k : Kind) (cfg : Config) :
    (k.prog cfg).Issues (Stmt.Makes fun w => k.spawns = true → w.Spawns) := by
  refine ((k.runs cfg).and (k.issues_logs cfg)).mono fun s hs => ?_
  obtain ⟨hruns, hlogs⟩ := hs
  cases s with
  | updateRuns p set =>
    intro ids _ hspawns
    have hnot : k.spawns = false := Kind.Updates.not_spawns hruns
    rw [hspawns] at hnot
    cases hnot
  | insertRun row =>
    intro seq start _
    obtain ⟨-, job, runAt, wait, rfl⟩ := hruns
    rfl
  | insertEvent row =>
    intro seq start hspawns
    have hlogs : k.logs row.eventType := hlogs
    show row.eventType.terminal = false
    cases k with
    | create now args =>
      rw [show row.eventType = .created from hlogs]
      rfl
    | poll now n | deliver now event =>
      rcases (show row.eventType = .created ∨ row.eventType = .chainSkippedPredicateMiss ∨
        row.eventType = .chainSkippedSlowConsumer from hlogs) with h | h | h <;> rw [h] <;> rfl
    | _ => cases hspawns
  | insertJob row => exact fun _ _ _ => trivial
  | updateJobs p set | updateEvents p set => exact fun _ _ => trivial
  | _ => trivial

/-- The tables `t'` are `t` and what a transaction that creates runs has added. -/
structure Tables.Grows (t t' : Tables) : Prop where
  kept : ∀ r ∈ t.runs, r ∈ t'.runs
  added : ∀ r ∈ t'.runs, r ∈ t.runs ∨ r.status.executing = true
  ended : ∀ e ∈ t'.events, e.eventType.terminal = true → ∃ e' ∈ t.events, e'.SameEvent e

theorem Tables.Grows.refl (t : Tables) : t.Grows t :=
  ⟨fun _ => id, fun _ => .inl, fun e he _ => ⟨e, he, .refl e⟩⟩

theorem Tables.Grows.apply {held : Held} {loaded : List Job} (h : t.Grows t') {w : Write}
    (hw : w.Spawns) (hv : Valid .steady libs k held loaded t' w) : t.Grows (w.apply t') := by
  cases w with
  | insertRun row =>
    refine ⟨fun r hr => List.mem_append_left _ (h.kept r hr), fun r hr => ?_, h.ended⟩
    rcases List.mem_append.mp hr with hr | hr
    · exact h.added r hr
    · rw [List.mem_singleton.mp hr, hv.status]
      exact .inr rfl
  | updateRuns ids set => exact hw.elim
  | insertEvent row =>
    refine ⟨h.kept, h.added, fun e he hterminal => ?_⟩
    rcases List.mem_append.mp he with he | he
    · exact h.ended e he hterminal
    · rw [List.mem_singleton.mp he, show row.eventType.terminal = false from hw] at hterminal
      cases hterminal
  | updateEvents ids set =>
    obtain ⟨_, by_, -, rfl, -⟩ := hv
    refine ⟨h.kept, h.added, fun e he hterminal => ?_⟩
    obtain ⟨x, hx, rfl⟩ := List.mem_map.mp he
    have hs : x.SameEvent (if x.eventId ∈ ids then { x with processedBy := by_ } else x) := by
      split <;> rfl
    obtain ⟨e', he', hse⟩ := h.ended x hx (hs.eventType ▸ hterminal)
    exact ⟨e', he', hse.trans hs⟩
  | insertJob row | updateJobs ids set => exact ⟨h.kept, h.added, h.ended⟩

/-- A run that is created while its job executes nothing, and sorts after the committed runs of the
job, keeps the order: what the transaction has created for the job before would execute. -/
theorem Tables.LiveLatest.addRun (h : t'.LiveLatest) (hgrows : t.Grows t') {row : JobRun}
    (hidle : ¬t'.Executing row.jobId) (hlast : t.SortBefore row.jobId row.latestKey) :
    ({ t' with runs := t'.runs ++ [row] } : Tables).LiveLatest := by
  intro r hr hlive x hx hjob hne
  rcases List.mem_append.mp hr with hr | hr <;> rcases List.mem_append.mp hx with hx | hx
  · exact h r hr hlive x hx hjob hne
  · rw [List.mem_singleton.mp hx] at hjob
    exact absurd ⟨r, hr, hjob.symm, hlive⟩ hidle
  · rw [List.mem_singleton.mp hr] at hjob ⊢
    rcases hgrows.added x hx with hx' | hxlive
    · exact hlast x hx' hjob
    · exact absurd ⟨x, hx, hjob, hxlive⟩ hidle
  · rw [List.mem_singleton.mp hr, List.mem_singleton.mp hx] at hne
    exact absurd rfl hne

/-- A run that the consumer creates is due after the committed runs of its job. -/
theorem Tables.DueLast.sortBefore {held : Held} {loaded : List Job} {row : JobRun}
    (h : t.DueLast libs row.jobId row.waitForRunId) (hk : k.creates = false)
    (hcoh : Coherent t seq) (hknows : t.Knows loaded) (hgrows : t.Grows t')
    (hnew : NewRun .steady libs k held loaded t' row) : t.SortBefore row.jobId row.scheduledAt := by
  intro x hx hjob
  cases hnew.source with
  | initial hcreates =>
    rw [hk] at hcreates
    cases hcreates
  | @successor c cron e prev hc hid hlive hcron hwait he hterminal hprev hrun hprevjob hnext =>
    obtain ⟨e', he', hse⟩ := hgrows.ended e he hterminal
    obtain ⟨j, hj, hjx⟩ := hcoh.run_job x hx
    have hjid : j.jobId = row.jobId := hjx.trans hjob
    obtain ⟨hcc, hzone, -⟩ := hknows c hc j hj (hid.trans hjid.symm)
    -- the run that has ended is a committed one, since the job executes nothing
    have hprev' : prev ∈ t.runs := (hgrows.added prev hprev).resolve_right fun hex =>
      hnew.idle trivial ⟨prev, hprev, hprevjob.trans hid, hex⟩
    rw [hwait] at h
    refine h j hj hjid prev hprev' (hprevjob.trans hid) e' he' (hse.eventType ▸ hterminal)
      (hse.runId.symm.trans hrun.symm) cron (hcc ▸ hcron) row.scheduledAt ?_
      (fun y hy hyj hynone => (hnew.index y (hgrows.kept y hy) hyj).2 hwait hynone) x hx hjob
    rw [Job.zone, ← hzone, ← hse.occurredAt]
    exact hnext
  | @upstream c p e hc hid hactive htrigger hp hpid hlive he hterminal hwait hat =>
    obtain ⟨e', he', hse⟩ := hgrows.ended e he hterminal
    rw [hwait] at h
    rw [hat, hse.occurredAt]
    exact h e' he' (hse.eventType ▸ hterminal) hse.runId.symm x hx hjob

theorem mem_insertedRuns {ws : List Write} {row : JobRun} (h : .insertRun row ∈ ws) :
    row ∈ insertedRuns ws :=
  List.mem_filterMap.mpr ⟨_, h, rfl⟩

/-- A creation adds runs to its new job only. -/
theorem Commits.created_job {now : Int} {args : CreateArgs}
    (hc : Commits .steady libs (.create now args) t seq ses won) (hcoh : Coherent t seq)
    {row : JobRun} (hrow : .insertRun row ∈ ses.writes) : ∀ x ∈ t.runs, x.jobId ≠ row.jobId := by
  intro x hx hjob
  rcases hc.ends with ⟨hnil, -⟩ | ⟨job, rest, hwrites, -, -, hrest⟩
  · change ses.writes = [] at hnil
    rw [hnil] at hrow
    cases hrow
  · change ses.writes = _ at hwrites
    have hmem : .insertJob job ∈ ses.writes := hwrites ▸ List.mem_cons_self
    rw [hwrites, List.mem_cons] at hrow
    rcases hrow with heq | hrow
    · cases heq
    obtain ⟨r, heq, hrj⟩ | ⟨e, heq⟩ := hrest _ hrow
    · cases heq
      obtain ⟨j, hj, hjx⟩ := hcoh.run_job x hx
      exact hc.fresh.jobs job hmem j hj (hjx.trans (hjob.trans hrj))
    · cases heq

/-- A commit that creates runs. -/
theorem Tables.LiveLatest.spawn (h : t.LiveLatest) (hc : Commits .steady libs k t seq ses won)
    (hcoh : Coherent t seq) (hin : Open.InOrder libs t ⟨k, prog, ses⟩)
    (hspawns : ∀ w ∈ ses.writes, w.Spawns) (hk : k.spawns = true) : (ses.view t).LiveLatest := by
  have hlast : ∀ row t', .insertRun row ∈ ses.writes → t.Grows t' →
      NewRun .steady libs k ses.held ses.loaded t' row → t.SortBefore row.jobId row.scheduledAt := by
    intro row t' hrow hgrows hnew
    cases k with
    | create now args => exact fun x hx hjob => absurd hjob (hc.created_job hcoh hrow x hx)
    | poll now n | deliver now event =>
      exact (hin row (mem_insertedRuns hrow)).sortBefore rfl hcoh (hc.kept.now.knows hcoh rfl) hgrows
        hnew
    | _ => cases hk
  have hend := hc.kept.now.replays.invariant (P := fun t' => t'.LiveLatest ∧ t.Grows t')
    (fun t' w hw hI hv => ?_) ⟨h, .refl t⟩
  · exact hend.1
  · refine ⟨?_, hI.2.apply (hspawns w hw) hv⟩
    cases w with
    | insertRun row =>
      refine hI.1.addRun hI.2 (hv.idle trivial) ?_
      rw [JobRun.latestKey, show row.startAt = none from hspawns _ hw]
      exact hlast row t' hw hI.2 hv
    | updateRuns ids set => exact (hspawns _ hw).elim
    | _ => exact hI.1

end Commit

namespace Sys

variable {cfg : Config} {ok : Sys → Act → Prop} {σ σ' : Sys}

/-- The invariant of the runs of a system whose times are in order. -/
structure KeysOrdered (cfg : Config) (σ : Sys) : Prop where
  interleaved : σ.Interleaved .steady cfg
  rows : σ.Rows
  latest : σ.tables.LiveLatest

theorem KeysOrdered.step (h : σ.KeysOrdered cfg) (hreach : Reach cfg ok σ) {a : Act}
    (ha : σ.KeysInOrder cfg.libs a) (hstep : σ.step cfg a = some σ') : σ'.KeysOrdered cfg := by
  have hat : a.stepwise := by
    cases a with
    | atomic k start pick => exact ha
    | _ => trivial
  have hadm : a.Admitted .steady cfg σ := by
    cases a with
    | start k at_ => exact Terms.admits_plain id (fun _ _ => trivial) cfg.libs k
    | statement i pick => exact fun _ _ _ _ _ => trivial
    | _ => trivial
  have hsys := h.interleaved
  have hcoh := hsys.coherent
  suffices hnext : NoRevival σ.tables σ'.tables ∧ σ'.tables.LiveLatest by
    have hsys' := hsys.step Terms.steady_stable hadm hstep trivial fun _ => hnext.1
    exact ⟨hsys', (h.rows.step hsys hsys' hat hstep).1, hnext.2⟩
  rcases stepwise_tables hat hstep with heq | ⟨i, k, won, ses, rfl, hi, heq⟩
  · rw [heq]
    exact ⟨fun r hr r' hr' hid hlive => hcoh.run_eq hr' hr hid ▸ hlive, h.latest⟩
  · have hin : Open.InOrder cfg.libs σ.tables ⟨k, .ret won, ses⟩ := ha _ hi
    have hc : Commits .steady cfg.libs k σ.tables σ.seq ses won := hsys.ends hi
    have hr : RowsKept k σ.tables ses.writes := (h.rows i _ hi).now
    have hnodup := (hc.coherent hcoh).runs
    have hmade := hreach.made (fun k => k.spawning cfg) hi
    rw [heq]
    refine ⟨hin.noRevival hr hnodup, ?_⟩
    cases hk : k.spawns with
    | false => exact h.latest.update hc hin hr hnodup hk
    | true => exact h.latest.spawn hc hcoh hin (fun w hw => hmade.now w hw hk) hk

/-- In every run whose times are in order, a run that executes sorts after the others of its job. -/
theorem Reach.keysOrdered (h : Reach cfg ok σ) (hok : ∀ σ a, ok σ a → σ.KeysInOrder cfg.libs a) :
    σ.KeysOrdered cfg := by
  induction h with
  | init => exact ⟨.init trivial, .init, fun r hr => (by cases hr)⟩
  | step hreach ha hstep ih => exact ih.step hreach (hok _ _ ha) hstep

end Sys

end TaskScheduler
