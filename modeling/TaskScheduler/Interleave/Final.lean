import TaskScheduler.Interleave.DataPlane

/-! The end of a run is final beside interleaved consumers: its status and its result stay, and the
outbox has one terminal event of it for ever. -/

namespace TaskScheduler

open Lib

/-! ### One change, one commit -/

/-- A change leaves a run that has ended with its status. -/
theorem Change.final {m : Mode} {libs : Libs} {L L' : Ledger} (hc : Change m libs L L')
    (hk : Coherent L.tables L.seq) {id : Nat} {s : RunStatus} (hend : s.executing = false)
    (h : ∃ r ∈ L.tables.runs, r.runId = id ∧ r.status = s) :
    ∃ r ∈ L'.tables.runs, r.runId = id ∧ r.status = s := by
  obtain ⟨x, hx, rfl, rfl⟩ := h
  cases hc with
  | spawn hjob hsame hactive hidle hclash hcause => exact ⟨x, List.mem_append_left _ hx, rfl, rfl⟩
  | @move _ r set _ _ hdue hr hset htrans hends =>
    refine ⟨x, mem_setRun_of_ne hx fun heq => ?_, rfl, rfl⟩
    -- only a run that executes moves
    obtain rfl := hk.run_eq hx hr heq
    rw [htrans.executing] at hend
    cases hend
  | @touch r set hr hset hstatus =>
    by_cases heq : x.runId = r.runId
    · obtain rfl := hk.run_eq hx hr heq
      exact ⟨set x, Tables.mem_setRun.mpr ⟨x, hx, if_pos rfl⟩, hset.runId, hstatus⟩
    · exact ⟨x, mem_setRun_of_ne hx heq, rfl, rfl⟩
  | _ => exact ⟨x, hx, rfl, rfl⟩

/-- A consumer writes no terminal event and drops none. -/
theorem continues_events {τ : Terms} {libs : Libs} {k : Kind} {held : Held} {loaded : List Job}
    {ws : List Write} {t : Tables} (h : Replays Write.apply (Valid τ libs k held loaded) ws t)
    (hws : ∀ w ∈ ws, w.Continues) :
    (∀ e ∈ t.events, ∃ e' ∈ (Write.applyAll ws t).events, e.SameEvent e') ∧
      ∀ e' ∈ (Write.applyAll ws t).events, e'.eventType.terminal = true →
        ∃ e ∈ t.events, e.SameEvent e' := by
  refine h.invariant (P := fun t' => (∀ e ∈ t.events, ∃ e' ∈ t'.events, e.SameEvent e') ∧
    ∀ e' ∈ t'.events, e'.eventType.terminal = true → ∃ e ∈ t.events, e.SameEvent e')
    (fun t₁ w hw hI hv => ?_) ⟨fun e he => ⟨e, he, .refl e⟩, fun e he _ => ⟨e, he, .refl e⟩⟩
  refine ⟨fun e he => ?_, ?_⟩
  · obtain ⟨e₁, he₁, hs₁⟩ := hI.1 e he
    obtain ⟨e₂, he₂, hs₂⟩ := hv.forward.2.2 e₁ he₁
    exact ⟨e₂, he₂, hs₁.trans hs₂⟩
  have hc := hws w hw
  cases w with
  | insertEvent row =>
    intro e' he' hterm
    rcases List.mem_append.mp he' with he' | he'
    · exact hI.2 e' he' hterm
    · have hquiet : row.eventType.terminal = false := hc
      rw [List.mem_singleton.mp he', hquiet] at hterm
      cases hterm
  | updateEvents ids set =>
    obtain ⟨x, by_, -, rfl, -⟩ := hv
    intro e' he' hterm
    obtain ⟨e₁, he₁, rfl⟩ := List.mem_map.mp he'
    split at hterm
    · next hin =>
      obtain ⟨e, he, hs⟩ := hI.2 e₁ he₁ hterm
      rw [if_pos hin]
      exact ⟨e, he, hs.trans rfl⟩
    · next hin =>
      rw [if_neg hin]
      exact hI.2 e₁ he₁ hterm
  | _ => exact hI.2

/-! ### The system -/

namespace Sys

variable {cfg : Config} {σ σ' : Sys}

/-- Runs and terminal events agree, and a run that has ended keeps its status, in a step. -/
theorem Reach.keeps_ended (h : Reach cfg ConsumersOk σ) (hended : Ended σ.tables) {a : Act}
    (ha : σ.ConsumersOk a) (hstep : σ.step cfg a = some σ') :
    Ended σ'.tables ∧ ∀ id s, s.executing = false →
      (∃ r ∈ σ.tables.runs, r.runId = id ∧ r.status = s) →
      ∃ r ∈ σ'.tables.runs, r.runId = id ∧ r.status = s := by
  have hspawned := h.spawned
  have hcoh := hspawned.interleaved.coherent
  have hcoh' := (h.step ha hstep).spawned.interleaved.coherent
  cases a with
  | atomic k start pick =>
    obtain ⟨hpath, -⟩ := atomic_changes hstep hcoh hspawned.live ha
    refine ⟨?_, fun id s hend hrun => ?_⟩
    · have := hpath.invariant (I := fun L => Coherent L.tables L.seq ∧ Ended L.tables)
        (fun L L' hI hc => ⟨hc.coherent hI.1, hI.2.change hI.1 hc⟩) ⟨hcoh, hended⟩
      exact this.2
    · have := hpath.invariant (I := fun L => Coherent L.tables L.seq ∧
        ∃ r ∈ L.tables.runs, r.runId = id ∧ r.status = s)
        (fun L L' hI hc => ⟨hc.coherent hI.1, hc.final hI.1 hend hI.2⟩) ⟨hcoh, hrun⟩
      exact this.2
  | commit i =>
    simp only [Sys.step] at hstep
    split at hstep
    · next k won ses hi =>
      cases hstep
      obtain ⟨-, hws⟩ := h.consumer hi
      have hreplays := (hspawned.interleaved.ends hi).kept.now.replays
      obtain ⟨hstays, hback⟩ := continues_events hreplays hws.now
      obtain ⟨new, hruns, hnew⟩ := continues_pending hreplays hws.now
      refine ⟨hended.continues hcoh hcoh' ⟨new, hruns, hnew⟩ hstays hback, fun id s _ hrun => ?_⟩
      obtain ⟨r, hr, hrest⟩ := hrun
      exact ⟨r, hruns ▸ List.mem_append_left _ hr, hrest⟩
    · cases hstep
  | start k at_ | statement i pick | abort i | crash runId jobId =>
    rcases step_tables h.interleaved hstep with heq | ⟨_, _, _, _, -, hk, -⟩
    · rw [heq]
      exact ⟨hended, fun _ _ _ hrun => hrun⟩
    · cases hk

theorem Reach.ended (h : Reach cfg ConsumersOk σ) : Ended σ.tables := by
  induction h with
  | init => exact ⟨by simp, by simp, by simp⟩
  | step hreach ha hstep ih => exact (hreach.keeps_ended ih ha hstep).1

/-- The events stay. -/
theorem step_events (h : σ.Interleaved .free cfg) {a : Act} (hstep : σ.step cfg a = some σ') :
    ∀ e ∈ σ.tables.events, ∃ e' ∈ σ'.tables.events, e.SameEvent e' := by
  rcases step_tables h hstep with heq | ⟨k, seq, ses, won, hc, -, heq⟩
  · exact heq ▸ fun e he => ⟨e, he, .refl e⟩
  · exact heq ▸ hc.others.events

/-- However the consumers interleave, and however the run's message, the sweeps and the cancellation
of its job meet it afterwards: a run that has ended keeps its status and its result, and its one
terminal event stays the only one. -/
theorem run_is_final (h : Reach cfg ConsumersOk σ) (hsteps : Steps cfg ConsumersOk σ σ')
    {r : JobRun} (hr : r ∈ σ.tables.runs) (hterm : r.status.terminal = true) :
    (∃ r' ∈ σ'.tables.runs, r.SameRun r' ∧ r'.status = r.status ∧ r'.result = r.result) ∧
      ∃ e ∈ σ.tables.events, e.runId = r.runId ∧ e.eventType.terminal = true ∧
        (∃ e' ∈ σ'.tables.events, e.SameEvent e') ∧
        ∀ e' ∈ σ'.tables.events, e'.runId = r.runId → e'.eventType.terminal = true →
          e.SameEvent e' := by
  have hend : r.status.executing = false := by rw [RunStatus.executing_eq_not_terminal, hterm]; rfl
  obtain ⟨e, he, hte, hrun⟩ := h.ended.recorded r hr hterm
  -- what the steps keep of the run and of the event
  have hkept : Reach cfg ConsumersOk σ' ∧ (∃ e' ∈ σ'.tables.events, e.SameEvent e') ∧
      ∃ r' ∈ σ'.tables.runs, r.SameRun r' ∧ r'.status = r.status ∧ r'.result = r.result := by
    induction hsteps with
    | refl => exact ⟨h, ⟨e, he, .refl e⟩, r, hr, .refl r, rfl, rfl⟩
    | step _ hok hstep ih =>
      obtain ⟨hreach, ⟨e₁, he₁, hs₁⟩, x, hx, hrx, hstatus, hres⟩ := ih
      have hreach' := hreach.step hok hstep
      refine ⟨hreach', ?_, ?_⟩
      · obtain ⟨e₂, he₂, hs₂⟩ := step_events hreach.interleaved hstep e₁ he₁
        exact ⟨e₂, he₂, hs₁.trans hs₂⟩
      · obtain ⟨r', hr', hsame, -, hres'⟩ := hreach.keeps_result hok hstep hx (hstatus ▸ hend)
        obtain ⟨y, hy, hid, hys⟩ := (hreach.keeps_ended hreach.ended hok hstep).2 x.runId x.status
          (hstatus ▸ hend) ⟨x, hx, rfl, rfl⟩
        have hry := hreach'.spawned.interleaved.coherent.run_eq hy hr' (hid.trans hsame.runId.symm)
        exact ⟨r', hr', hrx.trans hsame, hry ▸ hys.trans hstatus, hres'.trans hres⟩
  obtain ⟨hreach', ⟨e₁, he₁, hs₁⟩, hrow⟩ := hkept
  refine ⟨hrow, e, he, hrun, hte, ⟨e₁, he₁, hs₁⟩, fun e' he' hrun' hterm' => ?_⟩
  have hid := hreach'.ended.once e' he' e₁ he₁ hterm' (hs₁.eventType ▸ hte)
    (hrun'.trans (hrun.symm.trans hs₁.runId.symm))
  rwa [hreach'.spawned.interleaved.coherent.event_eq he' he₁ hid]

/-- Two consumers race over the end of the first run of a recurring job. -/
theorem raceRun_final : ∃ σ σ', runActs .minutely {} (raceRun.take 4) = some σ ∧
    runActs .minutely σ (raceRun.drop 4) = some σ' ∧
    ∀ r ∈ σ.tables.runs, r.status = .succeeded ∧
      ∃ e ∈ σ.tables.events, ∀ e' ∈ σ'.tables.events, e'.runId = r.runId →
        e'.eventType.terminal = true → e.SameEvent e' := by
  have hrun : ((runActs .minutely {} (raceRun.take 4)).bind fun σ =>
      (runActs .minutely σ (raceRun.drop 4)).map fun _ => σ.tables.runs.map (·.status)) =
      some [.succeeded] := by decide +kernel
  obtain ⟨σ, hσ, hrest⟩ := Option.bind_eq_some_iff.mp hrun
  obtain ⟨σ', hσ', hstatus⟩ := Option.map_eq_some_iff.mp hrest
  have hok : ∀ τ, ∀ a ∈ raceRun, ConsumersOk τ a := by
    intro τ a ha
    simp only [raceRun, List.mem_append, List.mem_cons, List.mem_replicate, List.not_mem_nil,
      or_false] at ha
    rcases ha with ((((ha | ⟨-, rfl⟩) | ⟨-, rfl⟩) | rfl) | ⟨-, rfl⟩) | rfl
    · rcases ha with rfl | rfl | rfl | rfl | rfl | rfl <;> trivial
    all_goals trivial
  have hreach : Reach .minutely ConsumersOk σ :=
    Reach.init.runActs (fun τ a ha => hok τ a (List.mem_of_mem_take ha)) hσ
  have hsteps : Steps .minutely ConsumersOk σ σ' :=
    Steps.refl.runActs (fun τ a ha => hok τ a (List.mem_of_mem_drop ha)) hσ'
  refine ⟨σ, σ', hσ, hσ', fun r hr => ?_⟩
  have hs : r.status = .succeeded :=
    List.mem_singleton.mp (hstatus ▸ List.mem_map_of_mem (f := fun x : JobRun => x.status) hr)
  obtain ⟨-, e, he, -, -, -, honly⟩ := run_is_final hreach hsteps hr (by rw [hs]; rfl)
  exact ⟨hs, e, he, honly⟩

end Sys

end TaskScheduler
