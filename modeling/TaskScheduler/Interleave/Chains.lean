import TaskScheduler.Batch.Body
import TaskScheduler.Interleave.System

/-! The chains of trigger-driven jobs.  The check of a new chain passes exactly where the chain of the
trigger ends at a root and leaves room for one more job; so in every state that any interleaving of
the transactions reaches, every chain ends at a root after ten jobs at most. -/

namespace TaskScheduler

open Lib

/-! ### The check -/

/-- A job that may trigger a new job of the user. -/
structure Chainable (t : Tables) (userId : String) (triggerJob : Job) : Prop where
  owner : triggerJob.userId = userId
  active : triggerJob.state = .active
  room : ∃ n < maxChainDepth, Rooted (parentOf t.jobs) n triggerJob

/-- `validate_chain` on its own: it succeeds exactly for a trigger that may have one more job after
it. -/
theorem validateChain_alone (x : Db) (start : Int) (pick : Nat → Bool) (userId : String)
    (triggerOnJobId : Nat) :
    (∃ y, x.alone start pick (validateChain userId triggerOnJobId) = some (.ok (), y)) ↔
      ∃ j, x.tables.job? triggerOnJobId = some j ∧ Chainable x.tables userId j := by
  have hhead : (x.tables.jobs.filter fun j => j.jobId == triggerOnJobId).head? =
      x.tables.job? triggerOnJobId := List.head?_filter ..
  let ses : Session := { start, loaded := x.tables.jobs.filter fun j => j.jobId == triggerOnJobId }
  have hload : (Txn.loadJobs fun j => j.jobId == triggerOnJobId).run (Stmt.exec pick [] x.tables)
      (x.seq, { start }) =
        some (.ok (x.tables.jobs.filter fun j => j.jobId == triggerOnJobId), x.seq, ses) := by
    -- with nothing loaded yet, the entities are the rows
    have hentity : Session.entity { start } = id := rfl
    simp [Txn.loadJobs, Program.run, Stmt.exec, Session.view, Session.isLoaded, ses, hentity]
  have hwalk : (Txn.ancestors triggerOnJobId (maxChainDepth + 2)).run (Stmt.exec pick [] x.tables)
      (x.seq, ses) =
        some (.ok (ancestorsOf x.tables.jobs triggerOnJobId (maxChainDepth + 2)), x.seq, ses) := rfl
  unfold Db.alone validateChain
  rw [Program.run_bind, hload]
  dsimp only [Option.bind_some]
  rw [hhead]
  cases hjob : x.tables.job? triggerOnJobId with
  | none => simp [Txn.raise, Program.run]
  | some j =>
    simp only [Option.some.injEq, exists_eq_left']
    have hroom := ancestorsOf_passes hjob
    by_cases huser : j.userId = userId
    · by_cases hactive : j.state = .active
      · rw [if_neg (by simpa using huser), if_neg (by simpa using hactive), Program.run_bind, hwalk]
        dsimp only [Option.bind_some]
        have hiff : Chainable x.tables userId j ↔
            ∃ n < maxChainDepth, Rooted (parentOf x.tables.jobs) n j :=
          ⟨fun h => h.room, fun h => ⟨huser, hactive, h⟩⟩
        rw [hiff, ← hroom]
        cases hcycle : (ancestorsOf x.tables.jobs triggerOnJobId (maxChainDepth + 2)).2 with
        | true => simp [Txn.raise, Program.run]
        | false =>
          rw [if_neg Bool.false_ne_true]
          by_cases hdepth : (ancestorsOf x.tables.jobs triggerOnJobId (maxChainDepth + 2)).1.getD 0 <
              maxChainDepth
          · rw [if_neg (Nat.not_le.mpr hdepth)]
            exact iff_of_true ⟨_, rfl⟩ ⟨rfl, hdepth⟩
          · rw [if_pos (Nat.not_lt.mp hdepth)]
            exact iff_of_false (by simp [Txn.raise, Program.run]) fun h => hdepth h.2
      · rw [if_neg (by simpa using huser), if_pos (by simpa using hactive)]
        refine iff_of_false (by simp [Txn.raise, Program.run]) fun h => hactive h.active
    · rw [if_pos (by simpa using huser)]
      exact iff_of_false (by simp [Txn.raise, Program.run]) fun h => huser h.owner

/-! ### The chains -/

/-- Every chain of the table ends at a root, after ten jobs at most. -/
def Tables.Chains (t : Tables) : Prop := ∀ j ∈ t.jobs, ∃ n ≤ maxChainDepth, Chained t.jobs n j.jobId

/-- A write of a session keeps the chains: a job that it inserts is one more than its trigger's. -/
theorem Tables.Chains.apply {τ : Terms} {libs : Libs} {k : Kind} {held : Held} {loaded : List Job}
    {t : Tables} (h : t.Chains) {w : Write} (hw : Valid τ libs k held loaded t w) :
    (w.apply t).Chains := by
  have hold : ∀ {n id}, Chained t.jobs n id → Chained (w.apply t).jobs n id :=
    fun hc => (persists_chain _ _).write held loaded t w hw hc
  cases w with
  | insertJob row =>
    intro j hj
    rcases List.mem_append.mp hj with hj | hj
    · obtain ⟨n, hn, hc⟩ := h j hj
      exact ⟨n, hn, hold hc⟩
    · have hrow : row ∈ ((Write.insertJob row).apply t).jobs :=
        List.mem_append_right _ (List.mem_singleton_self row)
      rw [List.mem_singleton.mp hj]
      cases htrigger : row.triggerOnJobId with
      | none => exact ⟨1, by decide, .root hrow htrigger⟩
      | some p =>
        obtain ⟨-, -, n, hn, hc⟩ := hw.2.2.2 p htrigger
        exact ⟨n + 1, hn, .link hrow htrigger (hold hc)⟩
  | updateJobs ids set =>
    intro j hj
    obtain ⟨i, hi, rfl⟩ := List.mem_map.mp hj
    obtain ⟨n, hn, hc⟩ := h i hi
    refine ⟨n, hn, ?_⟩
    split
    · rw [(sameDef_set hw.2.2.1 i).1]
      exact hold hc
    · exact hold hc
  | _ => exact fun j hj => h j hj

theorem Commits.chains {τ : Terms} {libs : Libs} {k : Kind} {t : Tables} {seq : Seq} {ses : Session}
    {won : Bool} (h : Commits τ libs k t seq ses won) (ht : t.Chains) : (ses.view t).Chains :=
  h.kept.now.replays.invariant (fun _ _ _ ht hw => ht.apply hw) ht

/-- Every chain is short and acyclic in every state that is reached. -/
theorem Sys.Reach.chains {cfg : Config} {ok : Sys → Act → Prop} {σ : Sys} (h : Reach cfg ok σ) :
    σ.tables.Chains := by
  induction h with
  | init => exact fun j hj => by cases hj
  | step hreach _ hstep ih =>
    rcases step_tables hreach.interleaved hstep with heq | ⟨k, seq, ses, won, hc, -, heq⟩
    · exact heq ▸ ih
    · exact heq ▸ hc.chains ih

/-- The chain validation is exact: its recursive query is finite on every table, it succeeds exactly
for an active trigger of the user whose chain ends at a root after nine jobs at most, and so, over
every history, every chain ends at a root after ten jobs at most. -/
theorem chain_validation_exact :
    (∀ jobs start limit, {a | Ancestors jobs start limit a}.Finite) ∧
    (∀ (x : Db) start pick userId triggerOnJobId,
      ((∃ y, x.alone start pick (validateChain userId triggerOnJobId) = some (.ok (), y)) ↔
        ∃ j, x.tables.job? triggerOnJobId = some j ∧ j.userId = userId ∧ j.state = .active ∧
          ∃ n ≤ 9, Rooted (parentOf x.tables.jobs) n j)) ∧
    ∀ cfg ok σ, Sys.Reach cfg ok σ → ∀ j ∈ σ.tables.jobs, ∃ n ≤ 10,
      Rooted (parentOf σ.tables.jobs) n j := by
  refine ⟨ancestors_finite, fun x start pick userId trigger => ?_, fun cfg ok σ hσ j hj => ?_⟩
  · rw [validateChain_alone]
    constructor
    · rintro ⟨j, hj, howner, hactive, n, hn, hrooted⟩
      exact ⟨j, hj, howner, hactive, n, Nat.le_of_lt_succ hn, hrooted⟩
    · rintro ⟨j, hj, howner, hactive, n, hn, hrooted⟩
      exact ⟨j, hj, howner, hactive, n, Nat.lt_succ_of_le hn, hrooted⟩
  · obtain ⟨n, hn, hc⟩ := hσ.chains j hj
    exact ⟨n, hn, hc.rooted hσ.interleaved.coherent.jobs.nodup hj rfl⟩

/-- A job and one that it triggers: the second one has a chain, and may trigger a third one. -/
theorem pair_chained : ∃ σ j, Sys.runActs .minutely {} [.at 0 (.create 0 (.echo none none none)),
      .at 1 (.create 1 (.echo none (some 1) none))] = some σ ∧ σ.tables.jobs[1]? = some j ∧
    (∃ n ≤ 10, Rooted (parentOf σ.tables.jobs) n j) ∧
    ∃ y, Db.alone 2 (fun _ => true) (validateChain "alice" 2) ⟨σ.tables, σ.seq⟩ =
      some (.ok (), y) := by
  have hsome : ((Sys.runActs .minutely {} [.at 0 (.create 0 (.echo none none none)),
      .at 1 (.create 1 (.echo none (some 1) none))]).bind fun σ => σ.tables.jobs[1]?.bind fun j =>
        (parentOf σ.tables.jobs j).bind fun p => if σ.tables.job? 2 = some j ∧ j.userId = "alice" ∧
          j.state = .active ∧ parentOf σ.tables.jobs p = none then some () else none) =
      some () := by decide +kernel
  obtain ⟨σ, hσ, hrest⟩ := Option.bind_eq_some_iff.mp hsome
  obtain ⟨j, hj, hrest⟩ := Option.bind_eq_some_iff.mp hrest
  obtain ⟨p, hp, hrest⟩ := Option.bind_eq_some_iff.mp hrest
  split at hrest
  · next hall =>
    obtain ⟨hjob, howner, hactive, hroot⟩ := hall
    refine ⟨σ, j, hσ, hj, chain_validation_exact.2.2 .minutely (fun _ _ => True) σ
      (Sys.Reach.init.runActs (fun _ _ _ => trivial) hσ) j (List.mem_of_getElem? hj), ?_⟩
    exact (chain_validation_exact.2.1 ⟨σ.tables, σ.seq⟩ 2 (fun _ => true) "alice" 2).mpr
      ⟨j, hjob, howner, hactive, 2, by decide, .step hp (.root hroot)⟩
  · cases hrest

end TaskScheduler
