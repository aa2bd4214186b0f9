import TaskScheduler.Interleave.System

/-! Who owns the rows.  A run carries the user of its job, and a chained job has the user of its
trigger, in every state that any interleaving of the transactions reaches: the creation checks the
owner of the trigger once, and every run is created from a job that its session has loaded. -/

namespace TaskScheduler

open Lib

/-- Every run belongs to the user of its job, and every chained job to the user of its trigger. -/
structure Tables.Owned (t : Tables) : Prop where
  run : ∀ r ∈ t.runs, ∃ j ∈ t.jobs, j.jobId = r.jobId ∧ j.userId = r.userId
  trigger : ∀ j ∈ t.jobs, ∀ p, j.triggerOnJobId = some p →
    ∃ i ∈ t.jobs, i.jobId = p ∧ i.userId = j.userId

/-- A write of a session keeps the owners. -/
theorem Tables.Owned.apply {τ : Terms} {libs : Libs} {k : Kind} {held : Held} {loaded : List Job}
    {t : Tables} (h : t.Owned) {w : Write} (hw : Valid τ libs k held loaded t w) :
    (w.apply t).Owned := by
  -- the jobs of a user stay
  have hjob : ∀ {id u}, (∃ j ∈ t.jobs, j.jobId = id ∧ j.userId = u) →
      ∃ j ∈ (w.apply t).jobs, j.jobId = id ∧ j.userId = u :=
    fun h => (persists_job _ _).write held loaded t w hw h
  cases w with
  | insertJob row =>
    refine ⟨fun r hr => hjob (h.run r hr), fun j hj p hp => ?_⟩
    rcases List.mem_append.mp hj with hj | hj
    · exact hjob (h.trigger j hj p hp)
    · rw [List.mem_singleton.mp hj] at hp ⊢
      exact hjob (hw.2.2.2 p hp).2.1
  | updateJobs ids set =>
    refine ⟨fun r hr => hjob (h.run r hr), fun j hj p hp => ?_⟩
    obtain ⟨i, hi, rfl⟩ := List.mem_map.mp hj
    split at hp
    · next hin =>
      obtain ⟨-, htrigger, huser⟩ := sameDef_set hw.2.2.1 i
      rw [if_pos hin, huser]
      exact hjob (h.trigger i hi p (htrigger ▸ hp))
    · next hin =>
      rw [if_neg hin]
      exact hjob (h.trigger i hi p hp)
  | insertRun row =>
    refine ⟨fun r hr => ?_, h.trigger⟩
    rcases List.mem_append.mp hr with hr | hr
    · exact h.run r hr
    · exact List.mem_singleton.mp hr ▸ hw.job
  | updateRuns ids set =>
    refine ⟨fun r hr => ?_, h.trigger⟩
    obtain ⟨x, hx, rfl⟩ := List.mem_map.mp hr
    split
    · rw [(hw.1 x).jobId, (hw.1 x).userId]
      exact h.run x hx
    · exact h.run x hx
  | insertEvent row => exact ⟨h.run, h.trigger⟩
  | updateEvents ids set => exact ⟨h.run, h.trigger⟩

/-- What a session commits keeps the owners. -/
theorem Commits.owned {τ : Terms} {libs : Libs} {k : Kind} {t : Tables} {seq : Seq} {ses : Session}
    {won : Bool} (h : Commits τ libs k t seq ses won) (ho : t.Owned) : (ses.view t).Owned :=
  h.kept.now.replays.invariant (fun _ _ _ ho hw => ho.apply hw) ho

/-- The rows have their owners in every state that is reached. -/
theorem Sys.Reach.owned {cfg : Config} {ok : Sys → Act → Prop} {σ : Sys} (h : Reach cfg ok σ) :
    σ.tables.Owned := by
  induction h with
  | init => exact ⟨by simp, by simp⟩
  | step hreach _ hstep ih =>
    rcases step_tables hreach.interleaved hstep with heq | ⟨k, seq, ses, won, hc, -, heq⟩
    · exact heq ▸ ih
    · exact heq ▸ hc.owned ih

end TaskScheduler
