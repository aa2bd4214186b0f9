import TaskScheduler.Interleave.Rows
import TaskScheduler.Mcp.StatusMapping

/-! The resource `tasks://recent-results`, `app/mcp/resources/recent_results.py`, over any run of the
system: when a run has a finish time, and which runs the resource lists. -/

namespace TaskScheduler

open Lib

/-- `_WINDOW_HOURS`, and as a span of time. -/
def windowHours : Nat := 24

def recentWindow : Int := windowHours * 3600 * second

/-- `_MAX_ROWS`. -/
def maxRecentRows : Nat := 50

/-- `_ERROR_EXCERPT_MAX`. -/
def errorExcerptMax : Nat := 200

/-- A row of `_query_recent_runs`. -/
structure RecentRow where
  runId : Nat
  jobId : Nat
  status : RunStatus
  startAt : Option Int
  finishAt : Option Int
  errorMessage : Option String
  action : String
  deriving DecidableEq, Repr

/-- The join of a run with its job, if that is a job of the user. -/
def JobRun.withJob (t : Tables) (userId : String) (r : JobRun) : Option RecentRow :=
  (t.jobs.find? fun j => j.jobId == r.jobId && j.userId == userId).map fun j =>
    ⟨r.runId, r.jobId, r.status, r.startAt, r.finishAt, r.errorMessage, j.action⟩

/-- The rows that `_query_recent_runs` selects, newest first; runs that finished at once stay in
table order. -/
def recentRows (t : Tables) (userId : String) (cutoff : Int) : List RecentRow :=
  ((t.runs.filter fun r => r.status.terminal && r.finishAt.any fun at_ => decide (cutoff ≤ at_)).filterMap
    (JobRun.withJob t userId)).insertionSort fun a b => b.finishAt.getD 0 ≤ a.finishAt.getD 0

/-- `_query_recent_runs`. -/
def queryRecentRuns (t : Tables) (userId : String) (cutoff : Int) : List RecentRow :=
  (recentRows t userId cutoff).take maxRecentRows

/-- An entry of the payload, with the instants that its texts write. -/
structure RecentRun where
  jobId : Nat
  runId : Nat
  action : String
  status : ExternalStatus
  startAt : Option Int
  finishAt : Option Int
  errorExcerpt : Option String
  deriving DecidableEq, Repr

/-- `(error_message or "")[:200] or None`. -/
def errorExcerpt (errorMessage : Option String) : Option String :=
  let excerpt := String.ofList ((errorMessage.getD "").toList.take errorExcerptMax)
  if excerpt = "" then none else some excerpt

def RecentRow.render (r : RecentRow) : RecentRun :=
  ⟨r.jobId, r.runId, r.action, toExternal r.status, r.startAt, r.finishAt, errorExcerpt r.errorMessage⟩

structure RecentResults where
  queriedAt : Int
  userId : String
  windowHours : Nat
  runs : List RecentRun
  deriving DecidableEq, Repr

/-- `read_tasks_recent_results`. -/
def readTasksRecentResults (t : Tables) (userId : String) (queriedAt : Int) : RecentResults where
  queriedAt := queriedAt
  userId := userId
  windowHours := windowHours
  runs := ((queryRecentRuns t userId (queriedAt - recentWindow)).take maxRecentRows).map
    RecentRow.render

/-! ### When runs end -/

/-- The clock reading that a transaction writes on runs. -/
def Kind.clock : Kind → Int
  | .create now _ | .publish now _ | .claim now _ _ | .finish now _ _ _ | .heartbeat now _
  | .sweepA now _ _ | .poll now _ | .deliver now _ | .cancel now _ _ => now
  | .sweepB _ now' _ _ _ | .sweepC _ now' _ _ => now'

/-- The runs that are terminal in `t'` and were not in `t`, with the time `at_`. -/
def Tables.ended (t t' : Tables) (at_ : Int) : List (Nat × Int) :=
  (t'.runs.filter fun r => r.status.terminal &&
    !t.runs.any fun c => c.runId == r.runId && c.status.terminal).map fun r => (r.runId, at_)

/-- The runs that a step makes terminal, and when. -/
def Sys.ended (σ : Sys) (a : Act) (σ' : Sys) : List (Nat × Int) :=
  match σ.commits a with
  | none => []
  | some k => σ.tables.ended σ'.tables k.clock

/-- The states that steps satisfying `ok` reach, with the log of the runs that became terminal. -/
inductive Sys.History (cfg : Config) (ok : Sys → Act → Prop) : Sys → List (Nat × Int) → Prop
  | init : History cfg ok {} []
  | step {σ σ' : Sys} {a : Act} {log : List (Nat × Int)} : History cfg ok σ log → ok σ a →
    σ.step cfg a = some σ' → History cfg ok σ' (log ++ σ.ended a σ')

/-- The transaction ends the run `c` in time, if it makes `v` of it: a cancel has not flipped it, and
a write after the work on it has found it executing. -/
def Kind.InTime (k : Kind) (c v : JobRun) : Prop :=
  match k with
  | .cancel _ _ _ => v.status = .cancelled → c.status = .cancelled
  | .finish _ runId _ _ => c.runId = runId → c.status.executing = true
  | _ => True

/-- An open transaction that ends every run in time, as it stands. -/
def Open.EndsInTime (t : Tables) (o : Open) : Prop :=
  ∀ c ∈ t.runs, ∀ v ∈ (o.ses.view t).runs, v.runId = c.runId → o.kind.InTime c v

/-- Every transaction that commits ends runs in time.  Transactions are sessions here, see
`atomic_steps`. -/
def Sys.EndsInTime (σ : Sys) : Act → Prop
  | .atomic _ _ _ => False
  | .commit i => ∀ o, σ.sessions[i]? = some (some o) → o.EndsInTime σ.tables
  | _ => True

/-- What a transaction in time makes of a run: it leaves its end alone, or it ends it now. -/
def Kind.Times (k : Kind) (c v : JobRun) : Prop :=
  (v.finishAt = c.finishAt ∧ v.status.terminal = c.status.terminal) ∨
    (c.status.terminal = false ∧ v.status.terminal = true ∧ v.finishAt = some k.clock)

theorem Outcome.write_cases (now : Int) (outcome : Outcome) :
    (∀ r, (outcome.write now r).status.terminal = true ∧
      (outcome.write now r).finishAt = some now) ∨
    ∀ r, (outcome.write now r).status = .retrying ∧ (outcome.write now r).finishAt = r.finishAt := by
  cases outcome with
  | returned res =>
    simp only [Outcome.write]
    split
    · exact .inl fun r => ⟨rfl, rfl⟩
    · split
      · exact .inl fun r => ⟨rfl, rfl⟩
      · exact .inr fun r => ⟨rfl, rfl⟩
  | raised message => exact .inr fun r => ⟨rfl, rfl⟩
  | invalid message eventData => exact .inl fun r => ⟨rfl, rfl⟩

namespace Kind

variable {c v : JobRun}

theorem Becomes.cancel {now : Int} {userId : String} {jobId : Nat}
    (h : Becomes (.cancel now userId jobId) c v) :
    v.finishAt = c.finishAt ∧ (v.status = c.status ∨ v.status = .cancelled) := by
  induction h with
  | refl => exact ⟨rfl, .inl rfl⟩
  | update _ hset _ _ _ ih =>
    cases hset
    exact ⟨ih.1, .inr rfl⟩

theorem Becomes.finish {now : Int} {runId jobId : Nat} {outcome : Outcome}
    (h : Becomes (.finish now runId jobId outcome) c v) :
    v = c ∨ c.runId = runId ∧ (v.status.terminal = true ∧ v.finishAt = some now ∨
      v.status = .retrying ∧ v.finishAt = c.finishAt) := by
  have hrun : v = c ∨ c.runId = runId := by
    induction h with
    | refl => exact .inl rfl
    | update hv hset hp _ _ _ =>
      cases hset
      exact .inr (hv.sameRun.runId ▸ beq_iff_eq.mp hp)
  rcases hrun with rfl | hrun
  · exact .inl rfl
  -- the outcome decides between an end and a retry, whatever the run was
  rcases outcome.write_cases now with hwrite | hwrite
  · have hend : v = c ∨ (v.status.terminal = true ∧ v.finishAt = some now) := by
      induction h with
      | refl => exact .inl rfl
      | update _ hset _ _ _ _ =>
        cases hset
        exact .inr (hwrite _)
    exact hend.imp id fun h => ⟨hrun, .inl h⟩
  · have hretry : v = c ∨ (v.status = .retrying ∧ v.finishAt = c.finishAt) := by
      induction h with
      | refl => exact .inl rfl
      | update _ hset _ _ _ ih =>
        cases hset
        refine .inr ⟨(hwrite _).1, (hwrite _).2.trans ?_⟩
        rcases ih with rfl | ⟨-, heq⟩
        · rfl
        · exact heq
    exact hretry.imp id fun h => ⟨hrun, .inr h⟩

theorem not_terminal {s : RunStatus} (h : s.executing = true) : s.terminal = false := by
  rwa [RunStatus.executing_eq_not_terminal, Bool.not_eq_true'] at h

/-- An update that makes an executing run of one. -/
theorem Times.goes_on {k : Kind} {v' : JobRun} (h : k.Times c v) (hv : v.status.executing = true)
    (hv' : v'.status.executing = true) (hfinish : v'.finishAt = v.finishAt) : k.Times c v' := by
  rcases h with ⟨heq, hterm⟩ | ⟨-, hterm, -⟩
  · exact .inl ⟨hfinish.trans heq, by rw [← hterm, not_terminal hv, not_terminal hv']⟩
  · rw [not_terminal hv] at hterm
    cases hterm

theorem Becomes.times {k : Kind} (h : k.Becomes c v) (htime : k.InTime c v) : k.Times c v := by
  by_cases hk : (∃ now userId jobId, k = .cancel now userId jobId) ∨
      ∃ now runId jobId outcome, k = .finish now runId jobId outcome
  · rcases hk with ⟨now, userId, jobId, rfl⟩ | ⟨now, runId, jobId, outcome, rfl⟩
    · obtain ⟨hfinish, hsame | hcancelled⟩ := h.cancel
      · exact .inl ⟨hfinish, by rw [hsame]⟩
      · exact .inl ⟨hfinish, by rw [hcancelled, htime hcancelled]⟩
    · rcases h.finish with rfl | ⟨hrun, ⟨hterm, hfinish⟩ | ⟨hretry, hfinish⟩⟩
      · exact .inl ⟨rfl, rfl⟩
      · exact .inr ⟨not_terminal (htime hrun), hterm, hfinish⟩
      · exact .inl ⟨hfinish, by rw [hretry, not_terminal (htime hrun)]; rfl⟩
  · clear htime
    induction h with
    | refl => exact .inl ⟨rfl, rfl⟩
    | update _ hset _ hlive hlocks ih =>
      cases hset with
      | publish | claim | reset => exact ih.goes_on ((hlive rfl).resolve_right fun h => h) rfl rfl
      | finish => exact absurd (.inr ⟨_, _, _, _, rfl⟩) hk
      | heartbeat | sweepB => exact ih
      | sweepA | orphan => exact .inr ⟨not_terminal (hlocks rfl), rfl, rfl⟩
      | cancel => exact absurd (.inl ⟨_, _, _, rfl⟩) hk

end Kind

namespace Sys

variable {cfg : Config} {σ σ' : Sys} {log : List (Nat × Int)}

/-- What a step in time does to the runs. -/
theorem EndsInTime.moves {a : Act} (hσ : σ.Interleaved .free cfg) (hrows : σ.Rows)
    (ha : σ.EndsInTime a) (hstep : σ.step cfg a = some σ') (hσ' : σ'.Interleaved .free cfg) :
    σ'.Rows ∧ (σ'.tables = σ.tables ∨
      ∃ k, σ.commits a = some k ∧
        σ.tables.RunsMove (fun c v => c.SameRun v ∧ k.Times c v) σ'.tables) := by
  have hat : a.stepwise := by
    cases a with
    | atomic k start pick => exact ha
    | _ => trivial
  obtain ⟨hrows', heq | ⟨i, o, rfl, hi, htables, f, new, hruns, hold, hnew⟩⟩ :=
    hrows.step hσ hσ' hat hstep
  · exact ⟨hrows', .inl heq⟩
  refine ⟨hrows', .inr ⟨o.kind, by simp [commits, hi], f, new, hruns, fun c hc => ?_, hnew⟩⟩
  have hbecomes := hold c hc
  refine ⟨hbecomes.sameRun, hbecomes.times (ha o hi c hc (f c) ?_ hbecomes.sameRun.runId)⟩
  rw [← htables, hruns]
  exact List.mem_append_left _ (List.mem_map_of_mem hc)

end Sys

/-- The log of a run in time: it has every run once, when it became terminal. -/
structure Tables.Logged (t : Tables) (log : List (Nat × Int)) : Prop where
  timed : ∀ r ∈ t.runs, r.finishAt.isSome = r.status.terminal
  once : (log.map (·.1)).Nodup
  ends : ∀ id at_, (id, at_) ∈ log ↔ ∃ r ∈ t.runs, r.runId = id ∧ r.finishAt = some at_

namespace Tables

variable {t t' : Tables} {k : Kind}

/-- The run was terminal before. -/
theorem any_ended {v : JobRun} : (t.runs.any fun c => c.runId == v.runId && c.status.terminal) = true ↔
    ∃ c ∈ t.runs, c.runId = v.runId ∧ c.status.terminal = true := by
  simp only [List.any_eq_true, Bool.and_eq_true, beq_iff_eq]

theorem mem_ended {at_ at' : Int} {id : Nat} : (id, at') ∈ t.ended t' at_ ↔
    ∃ v ∈ t'.runs, (v.status.terminal = true ∧ ¬∃ c ∈ t.runs, c.runId = v.runId ∧
      c.status.terminal = true) ∧ v.runId = id ∧ at_ = at' := by
  simp only [ended, List.mem_map, List.mem_filter, Bool.and_eq_true, Bool.not_eq_true', Prod.mk.injEq,
    ← any_ended, Bool.not_eq_true, and_assoc]

/-- A run after a commit in time: it was terminal before, it has just become so, or it is not. -/
theorem RunsMove.ends (h : t.RunsMove (fun c v => c.SameRun v ∧ k.Times c v) t')
    (hnodup : (t.runs.map (·.runId)).Nodup) (hnodup' : (t'.runs.map (·.runId)).Nodup)
    (htimed : ∀ r ∈ t.runs, r.finishAt.isSome = r.status.terminal) {v : JobRun} (hv : v ∈ t'.runs) :
    (∃ c ∈ t.runs, c.runId = v.runId ∧ c.status.terminal = true ∧ v.finishAt = c.finishAt ∧
      v.status.terminal = true) ∨
    (¬∃ c ∈ t.runs, c.runId = v.runId ∧ c.status.terminal = true) ∧
      (v.status.terminal = true ∧ v.finishAt = some k.clock ∨
        v.status.terminal = false ∧ v.finishAt = none) := by
  obtain ⟨f, new, hruns, hold, hnew⟩ := h
  rw [hruns] at hv hnodup'
  rw [List.map_append] at hnodup'
  rcases List.mem_append.mp hv with hv | hv
  · obtain ⟨c, hc, rfl⟩ := List.mem_map.mp hv
    obtain ⟨hsame, htimes⟩ := hold c hc
    cases hterm : c.status.terminal with
    | true =>
      rcases htimes with ⟨hfinish, hstatus⟩ | ⟨hnot, -⟩
      · exact .inl ⟨c, hc, hsame.runId.symm, hterm, hfinish, hstatus.trans hterm⟩
      · rw [hterm] at hnot
        cases hnot
    | false =>
      refine .inr ⟨?_, ?_⟩
      · rintro ⟨c', hc', hid, hterm'⟩
        rw [List.inj_on_of_nodup_map hnodup hc' hc (hid.trans hsame.runId), hterm] at hterm'
        cases hterm'
      · rcases htimes with ⟨hfinish, hstatus⟩ | ⟨-, hstatus, hfinish⟩
        · have hnone := htimed c hc
          rw [hterm, Option.isSome_eq_false_iff, Option.isNone_iff_eq_none] at hnone
          exact .inr ⟨hstatus.trans hterm, hfinish.trans hnone⟩
        · exact .inl ⟨hstatus, hfinish⟩
  · refine .inr ⟨?_, .inr ?_⟩
    · rintro ⟨c', hc', hid, -⟩
      have hmem : v.runId ∈ (t.runs.map f).map (·.runId) := by
        rw [List.map_map]
        exact List.mem_map.mpr ⟨c', hc', (hold c' hc').1.runId.trans hid⟩
      exact List.disjoint_of_nodup_append hnodup' hmem (List.mem_map_of_mem hv)
    · obtain ⟨seq, start, job, runAt, wait, rfl⟩ := hnew v hv
      exact ⟨rfl, rfl⟩

/-- A commit in time logs what it ends. -/
theorem Logged.step {log : List (Nat × Int)} (h : t.Logged log)
    (hmoves : t.RunsMove (fun c v => c.SameRun v ∧ k.Times c v) t')
    (hnodup : (t.runs.map (·.runId)).Nodup) (hnodup' : (t'.runs.map (·.runId)).Nodup) :
    t'.Logged (log ++ t.ended t' k.clock) := by
  have hends := fun v (hv : v ∈ t'.runs) => hmoves.ends hnodup hnodup' h.timed hv
  have hlogged : ∀ id at_, (id, at_) ∈ log → ∃ c ∈ t.runs, c.runId = id ∧ c.status.terminal = true ∧
      c.finishAt = some at_ := by
    intro id at_ hin
    obtain ⟨c, hc, hid, hfinish⟩ := (h.ends id at_).mp hin
    exact ⟨c, hc, hid, by rw [← h.timed c hc, hfinish]; rfl, hfinish⟩
  refine ⟨fun v hv => ?_, ?_, fun id at_ => ?_⟩
  · rcases hends v hv with ⟨c, hc, -, hterm, hfinish, hterm'⟩ | ⟨-, ⟨hterm, hfinish⟩ | ⟨hterm, hfinish⟩⟩
    · rw [hfinish, hterm', h.timed c hc, hterm]
    · rw [hfinish, hterm]
      rfl
    · rw [hfinish, hterm]
      rfl
  · rw [List.map_append]
    refine h.once.append ?_ fun id hid hid' => ?_
    · rw [ended, List.map_map]
      exact hnodup'.sublist (List.Sublist.map _ List.filter_sublist)
    · obtain ⟨⟨_, at_⟩, hin, rfl⟩ := List.mem_map.mp hid
      obtain ⟨⟨_, at'⟩, hin', heq⟩ := List.mem_map.mp hid'
      obtain ⟨v, hv, ⟨-, hnot⟩, hvid, -⟩ := mem_ended.mp hin'
      obtain ⟨c, hc, hcid, hterm, -⟩ := hlogged _ _ hin
      exact hnot ⟨c, hc, hcid.trans (heq.symm.trans hvid.symm), hterm⟩
  · rw [List.mem_append, mem_ended]
    constructor
    · rintro (hin | ⟨v, hv, ⟨hterm, hnot⟩, rfl, rfl⟩)
      · obtain ⟨c, hc, rfl, hterm, hfinish⟩ := hlogged _ _ hin
        obtain ⟨f, new, hruns, hold, -⟩ := hmoves
        refine ⟨f c, ?_, (hold c hc).1.runId, ?_⟩
        · rw [hruns]
          exact List.mem_append_left _ (List.mem_map_of_mem hc)
        · rcases (hold c hc).2 with ⟨heq, -⟩ | ⟨hnot, -⟩
          · exact heq.trans hfinish
          · rw [hterm] at hnot
            cases hnot
      · rcases hends v hv with ⟨c, hc, hid, hterm', -⟩ | ⟨-, ⟨-, hfinish⟩ | ⟨hterm', -⟩⟩
        · exact absurd ⟨c, hc, hid, hterm'⟩ hnot
        · exact ⟨v, hv, rfl, hfinish⟩
        · rw [hterm] at hterm'
          cases hterm'
    · rintro ⟨v, hv, rfl, hfinish⟩
      rcases hends v hv with ⟨c, hc, hid, -, heq, -⟩ | ⟨hnot, ⟨hterm, heq⟩ | ⟨-, heq⟩⟩
      · exact .inl ((h.ends _ _).mpr ⟨c, hc, hid, heq.symm.trans hfinish⟩)
      · exact .inr ⟨v, hv, ⟨hterm, hnot⟩, rfl, Option.some.inj (heq.symm.trans hfinish)⟩
      · rw [heq] at hfinish
        cases hfinish

end Tables

namespace Sys

variable {cfg : Config} {ok : Sys → Act → Prop} {σ : Sys} {log : List (Nat × Int)}

theorem History.reach (h : History cfg ok σ log) : Reach cfg ok σ := by
  induction h with
  | init => exact .init
  | step _ hok hstep ih => exact ih.step hok hstep

/-- Every run of steps in time logs the ends of its runs. -/
theorem History.logged (h : History cfg ok σ log) (hok : ∀ σ a, ok σ a → σ.EndsInTime a) :
    σ.Rows ∧ σ.tables.Logged log := by
  induction h with
  | init => exact ⟨.init, ⟨by simp, List.nodup_nil, by simp⟩⟩
  | @step σ σ' a log hhist hsat hstep ih =>
    have hσ := hhist.reach.interleaved
    have hσ' := (hhist.reach.step hsat hstep).interleaved
    obtain ⟨hrows, heq | ⟨k, hk, hmoves⟩⟩ := (hok σ a hsat).moves hσ ih.1 hstep hσ'
    · refine ⟨hrows, ?_⟩
      have hnil : σ.ended a σ' = [] := by
        unfold Sys.ended
        split
        · rfl
        · refine List.eq_nil_iff_forall_not_mem.mpr fun e he => ?_
          obtain ⟨v, hv, ⟨hterm, hnot⟩, -⟩ := Tables.mem_ended.mp he
          exact hnot ⟨v, heq ▸ hv, rfl, hterm⟩
      rw [hnil, List.append_nil, heq]
      exact ih.2
    · refine ⟨hrows, ?_⟩
      simp only [Sys.ended, hk]
      exact ih.2.step hmoves hσ.coherent.runs hσ'.coherent.runs

end Sys

/-! ### What the resource lists -/

/-- The run is one of a job of the user. -/
def Tables.isRunOf (t : Tables) (userId : String) (id : Nat) : Bool :=
  t.runs.any fun r => r.runId == id && t.jobs.any fun j => j.jobId == r.jobId && j.userId == userId

theorem isRunOf_iff {t : Tables} {userId : String} {id : Nat} : t.isRunOf userId id = true ↔
    ∃ r ∈ t.runs, r.runId = id ∧ ∃ j ∈ t.jobs, j.jobId = r.jobId ∧ j.userId = userId := by
  simp only [Tables.isRunOf, List.any_eq_true, Bool.and_eq_true, beq_iff_eq]

section Listed

variable {t : Tables} {userId : String} {cutoff : Int} {row : RecentRow}

theorem withJob_eq_some {r : JobRun} : r.withJob t userId = some row →
    (∃ j ∈ t.jobs, j.jobId = r.jobId ∧ j.userId = userId ∧ row.action = j.action) ∧
      row.runId = r.runId ∧ row.jobId = r.jobId ∧ row.status = r.status ∧ row.startAt = r.startAt ∧
        row.finishAt = r.finishAt ∧ row.errorMessage = r.errorMessage := by
  intro h
  obtain ⟨j, hj, rfl⟩ := Option.map_eq_some_iff.mp h
  have hp := List.find?_some hj
  simp only [Bool.and_eq_true, beq_iff_eq] at hp
  exact ⟨⟨j, List.mem_of_find?_eq_some hj, hp.1, hp.2, rfl⟩, rfl, rfl, rfl, rfl, rfl, rfl⟩

theorem withJob_isSome {r : JobRun} {j : Job} (hj : j ∈ t.jobs) (hjob : j.jobId = r.jobId)
    (howner : j.userId = userId) : ∃ row, r.withJob t userId = some row := by
  refine Option.isSome_iff_exists.mp ?_
  rw [JobRun.withJob, Option.isSome_map, List.find?_isSome]
  exact ⟨j, hj, by simp [hjob, howner]⟩

theorem mem_recentRows : row ∈ recentRows t userId cutoff ↔ ∃ r ∈ t.runs,
    (r.status.terminal = true ∧ ∃ at_, r.finishAt = some at_ ∧ cutoff ≤ at_) ∧
      r.withJob t userId = some row := by
  simp only [recentRows, List.mem_insertionSort, List.mem_filterMap, List.mem_filter,
    Bool.and_eq_true, Option.any_eq_true, decide_eq_true_eq, and_assoc]

theorem recentRows_pairwise : (recentRows t userId cutoff).Pairwise fun a b =>
    b.finishAt.getD 0 ≤ a.finishAt.getD 0 :=
  haveI : Std.Total fun a b : RecentRow => b.finishAt.getD 0 ≤ a.finishAt.getD 0 :=
    ⟨fun a b => le_total (b.finishAt.getD 0) (a.finishAt.getD 0)⟩
  haveI : IsTrans RecentRow fun a b => b.finishAt.getD 0 ≤ a.finishAt.getD 0 :=
    ⟨fun _ _ _ hab hbc => le_trans hbc hab⟩
  List.pairwise_insertionSort _ _

theorem recentRows_nodup (hnodup : (t.runs.map (·.runId)).Nodup) :
    ((recentRows t userId cutoff).map (·.runId)).Nodup := by
  refine ((List.perm_insertionSort _ _).map RecentRow.runId).nodup_iff.mpr ?_
  rw [List.map_filterMap]
  refine List.Nodup.sublist ?_ hnodup
  have hkeys : ∀ l : List JobRun, (l.filterMap fun r => (r.withJob t userId).map (·.runId)).Sublist
      (l.map (·.runId)) := by
    intro l
    induction l with
    | nil => exact .slnil
    | cons r l ih =>
      cases hrow : r.withJob t userId with
      | none =>
        rw [List.filterMap_cons_none (by rw [hrow]; rfl)]
        exact ih.cons _
      | some row =>
        rw [List.filterMap_cons_some (b := row.runId) (by rw [hrow]; rfl), (withJob_eq_some hrow).2.1]
        exact ih.cons_cons _
  exact (hkeys _).trans (List.filter_sublist.map _)

end Listed

namespace Sys

variable {cfg : Config} {ok : Sys → Act → Prop} {σ : Sys} {log : List (Nat × Int)}

/-- In every run of transactions that end runs in time, a run has a finish time iff it is terminal,
and the resource lists the runs of the user that became terminal from 24 hours before the query on,
newest first, cut to the 50 most recent. -/
theorem recent_results_complete (h : History cfg ok σ log) (hok : ∀ σ a, ok σ a → σ.EndsInTime a) :
    (∀ r ∈ σ.tables.runs, r.finishAt.isSome = r.status.terminal) ∧
    ∀ userId queriedAt, ∃ recent : List (Nat × Int),
      recent.Perm (log.filter fun e => decide (queriedAt - recentWindow ≤ e.2) &&
        σ.tables.isRunOf userId e.1) ∧
      recent.Pairwise (fun a b => b.2 ≤ a.2) ∧
      (readTasksRecentResults σ.tables userId queriedAt).runs.map (fun x => (x.runId, x.finishAt)) =
        (recent.take 50).map (fun e => (e.1, some e.2)) ∧
      ∀ x ∈ (readTasksRecentResults σ.tables userId queriedAt).runs, ∃ r ∈ σ.tables.runs,
        ∃ j ∈ σ.tables.jobs, r.runId = x.runId ∧ j.jobId = r.jobId ∧ x.jobId = r.jobId ∧
          x.action = j.action ∧ x.status = toExternal r.status ∧ x.startAt = r.startAt ∧
          x.errorExcerpt = errorExcerpt r.errorMessage := by
  have hσ := h.reach.interleaved.coherent
  have hlogged := (h.logged hok).2
  refine ⟨hlogged.timed, fun userId queriedAt => ?_⟩
  have hpayload : (readTasksRecentResults σ.tables userId queriedAt).runs =
      ((recentRows σ.tables userId (queriedAt - recentWindow)).take 50).map RecentRow.render := by
    simp only [readTasksRecentResults, queryRecentRuns, List.take_take, Nat.min_self]
    rfl
  refine ⟨(recentRows σ.tables userId (queriedAt - recentWindow)).map
    fun row => (row.runId, row.finishAt.getD 0), ?_, List.pairwise_map.mpr recentRows_pairwise, ?_, ?_⟩
  · refine (List.perm_ext_iff_of_nodup (.of_map Prod.fst ?_) ?_).mpr fun e => ?_
    · rw [List.map_map]
      exact recentRows_nodup hσ.runs
    · exact (List.Nodup.of_map _ hlogged.once).sublist List.filter_sublist
    · simp only [List.mem_map, List.mem_filter, Bool.and_eq_true, decide_eq_true_eq]
      constructor
      · rintro ⟨row, hrow, rfl⟩
        obtain ⟨r, hr, ⟨-, at_, hfinish, hcutoff⟩, hjoin⟩ := mem_recentRows.mp hrow
        obtain ⟨⟨j, hj, hjob, howner, -⟩, hrun, -, -, -, heq, -⟩ := withJob_eq_some hjoin
        rw [heq, hfinish, Option.getD_some]
        exact ⟨(hlogged.ends _ _).mpr ⟨r, hr, hrun.symm, hfinish⟩, hcutoff,
          isRunOf_iff.mpr ⟨r, hr, hrun.symm, j, hj, hjob, howner⟩⟩
      · rintro ⟨hin, hcutoff, howned⟩
        obtain ⟨r, hr, hid, hfinish⟩ := (hlogged.ends _ _).mp hin
        obtain ⟨r', hr', hid', j, hj, hjob, howner⟩ := isRunOf_iff.mp howned
        obtain rfl := List.inj_on_of_nodup_map hσ.runs hr' hr (hid'.trans hid.symm)
        obtain ⟨row, hjoin⟩ := withJob_isSome hj hjob howner
        obtain ⟨-, hrun, -, -, -, heq, -⟩ := withJob_eq_some hjoin
        have hterm : r'.status.terminal = true := by
          rw [← hlogged.timed r' hr, hfinish]
          rfl
        refine ⟨row, mem_recentRows.mpr ⟨r', hr, ⟨hterm, e.2, hfinish, hcutoff⟩, hjoin⟩, ?_⟩
        rw [heq, hfinish, hrun, hid]
        rfl
  · rw [hpayload, List.map_map, ← List.map_take, List.map_map]
    refine List.map_congr_left fun row hrow => ?_
    obtain ⟨r, -, ⟨-, at_, hfinish, -⟩, hjoin⟩ := mem_recentRows.mp (List.mem_of_mem_take hrow)
    have heq : row.finishAt = some at_ := (withJob_eq_some hjoin).2.2.2.2.2.1.trans hfinish
    simp only [Function.comp, RecentRow.render, heq, Option.getD_some]
  · intro x hx
    rw [hpayload] at hx
    obtain ⟨row, hrow, rfl⟩ := List.mem_map.mp hx
    obtain ⟨r, hr, -, hjoin⟩ := mem_recentRows.mp (List.mem_of_mem_take hrow)
    obtain ⟨⟨j, hj, hjob, -, haction⟩, hrun, hjobId, hstatus, hstart, -, herror⟩ := withJob_eq_some hjoin
    exact ⟨r, hr, j, hj, hrun.symm, hjob, hjobId, haction, congrArg toExternal hstatus, hstart,
      congrArg errorExcerpt herror⟩

/-! ### Concrete runs -/

instance (k : Kind) (c v : JobRun) : Decidable (k.InTime c v) :=
  match k with
  | .cancel _ _ _ => inferInstanceAs (Decidable (v.status = .cancelled → c.status = .cancelled))
  | .finish _ runId _ _ => inferInstanceAs (Decidable (c.runId = runId → c.status.executing = true))
  | .create _ _ | .publish _ _ | .claim _ _ _ | .heartbeat _ _ | .sweepA _ _ _ | .sweepB _ _ _ _ _
  | .sweepC _ _ _ _ | .poll _ _ | .deliver _ _ => isTrue trivial

instance (t : Tables) (o : Open) : Decidable (o.EndsInTime t) :=
  inferInstanceAs (Decidable (∀ c ∈ t.runs, ∀ v ∈ (o.ses.view t).runs, v.runId = c.runId →
    o.kind.InTime c v))

/-- `EndsInTime`, decided. -/
def endsInTime (σ : Sys) : Act → Bool
  | .atomic _ _ _ => false
  | .commit i => (σ.sessions[i]?.join).all fun o => decide (o.EndsInTime σ.tables)
  | _ => true

theorem endsInTime_sound (σ : Sys) (a : Act) (h : endsInTime σ a = true) : σ.EndsInTime a := by
  cases a with
  | atomic k start pick => cases h
  | commit i =>
    intro o ho
    simp only [endsInTime, ho, Option.join_some, Option.all_some, decide_eq_true_eq] at h
    exact h
  | _ => trivial

/-- The listed steps with their log, if each is possible and satisfies `p`. -/
def logActs (cfg : Config) (p : Sys → Act → Bool) (s : Sys × List (Nat × Int)) :
    List Act → Option (Sys × List (Nat × Int))
  | [] => some s
  | a :: as =>
    if p s.1 a then (s.1.step cfg a).bind fun σ' => logActs cfg p (σ', s.2 ++ s.1.ended a σ') as
    else none

theorem History.logActs {p : Sys → Act → Bool} (hp : ∀ σ a, p σ a = true → ok σ a)
    {s s' : Sys × List (Nat × Int)} {as : List Act} (h : History cfg ok s.1 s.2)
    (hrun : Sys.logActs cfg p s as = some s') : History cfg ok s'.1 s'.2 := by
  induction as generalizing s with
  | nil =>
    cases hrun
    exact h
  | cons a as ih =>
    simp only [Sys.logActs] at hrun
    split at hrun
    · next hpa =>
      obtain ⟨σ', hstep, hrest⟩ := Option.bind_eq_some_iff.mp hrun
      exact ih (s := (σ', _)) (h.step (hp _ _ hpa) hstep) hrest
    · cases hrun

/-- A job whose action succeeds. -/
def doneRun : List Act :=
  Act.session 0 (.create 0 (.echo none none none)) 0 5 ++
    Act.session 1 (.claim second 1 1) second 5 ++
    Act.session 2 (.finish (2 * second) 1 1 .success) (2 * second) 3

/-- The end of the run is logged, and listed. -/
theorem doneRun_listed : ∃ σ, History .minutely EndsInTime σ [(1, 2 * second)] ∧
    (∀ r ∈ σ.tables.runs, r.finishAt.isSome = r.status.terminal) ∧
    (readTasksRecentResults σ.tables "alice" (3 * second)).runs.map (fun x => (x.runId, x.finishAt)) =
      [(1, some (2 * second))] := by
  have hrun : (logActs .minutely endsInTime ({}, []) doneRun).any (fun s =>
      decide (s.2 = [(1, 2 * second)] ∧ s.1.tables.isRunOf "alice" 1 = true)) = true := by
    decide +kernel
  obtain ⟨⟨σ, log⟩, hlog, hend⟩ := (Option.any_eq_true _ _).mp hrun
  have hhistory := History.logActs (s := ({}, [])) endsInTime_sound .init hlog
  obtain ⟨rfl, howned⟩ := of_decide_eq_true hend
  obtain ⟨htimed, hlist⟩ := recent_results_complete hhistory fun _ _ h => h
  obtain ⟨recent, hperm, -, hpayload, -⟩ := hlist "alice" (3 * second)
  have hone : recent = [(1, 2 * second)] := by
    rw [List.filter_cons_of_pos (by rw [howned]; decide +kernel), List.filter_nil] at hperm
    exact List.perm_singleton.mp hperm
  refine ⟨σ, hhistory, htimed, hpayload.trans ?_⟩
  rw [hone]
  rfl

/-- A job whose run is cancelled while it is pending. -/
def flippedRun : List Act :=
  [.at 0 (.create 0 (.echo none none none)), .at second (.cancel second "alice" 1)]

/-- A run that a cancel has flipped has no finish time, and the resource does not list it. -/
theorem flippedRun_unlisted : ∃ σ, History .minutely (fun _ _ => True) σ [(1, second)] ∧
    (∃ r ∈ σ.tables.runs, r.runId = 1 ∧ r.status = .cancelled ∧ r.finishAt = none) ∧
    σ.tables.isRunOf "alice" 1 = true ∧
    (readTasksRecentResults σ.tables "alice" (2 * second)).runs = [] := by
  have hrun : (logActs .minutely (fun _ _ => true) ({}, []) flippedRun).any (fun s =>
      decide (s.2 = [(1, second)] ∧
        (∃ r ∈ s.1.tables.runs, r.runId = 1 ∧ r.status = .cancelled ∧ r.finishAt = none) ∧
        s.1.tables.isRunOf "alice" 1 = true ∧
        (readTasksRecentResults s.1.tables "alice" (2 * second)).runs = [])) = true := by
    decide +kernel
  obtain ⟨⟨σ, log⟩, hlog, hend⟩ := (Option.any_eq_true _ _).mp hrun
  have hhistory := @History.logActs .minutely (fun _ _ => True) (fun _ _ => true)
    (fun _ _ _ => trivial) ({}, []) _ _ .init hlog
  obtain ⟨rfl, hend⟩ := of_decide_eq_true hend
  exact ⟨σ, hhistory, hend⟩

end Sys

end TaskScheduler
