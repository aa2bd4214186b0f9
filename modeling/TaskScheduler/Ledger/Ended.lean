import TaskScheduler.Ledger.Atomic

/-! Terminal events and terminal runs: a run has a terminal event exactly when its status is
terminal, and then only one. -/

namespace TaskScheduler

/-- Runs and terminal events agree. -/
structure Ended (t : Tables) : Prop where
  ended : ∀ e ∈ t.events, e.eventType.terminal = true → ∀ r ∈ t.runs, r.runId = e.runId →
    r.status.terminal = true
  recorded : ∀ r ∈ t.runs, r.status.terminal = true →
    ∃ e ∈ t.events, e.eventType.terminal = true ∧ e.runId = r.runId
  once : ∀ e ∈ t.events, ∀ e' ∈ t.events, e.eventType.terminal = true →
    e'.eventType.terminal = true → e.runId = e'.runId → e.eventId = e'.eventId

namespace Ended

variable {t t' : Tables} {seq : Seq}

/-- What the agreement depends on. -/
theorem congr (h : Ended t) (hruns : t'.runs = t.runs) (hevents : t'.events = t.events) :
    Ended t' := by
  obtain ⟨h₁, h₂, h₃⟩ := h
  constructor
  · rw [hruns, hevents]; exact h₁
  · rw [hruns, hevents]; exact h₂
  · rw [hevents]; exact h₃

theorem addRun (h : Ended t) (hk : Coherent t seq) {row : JobRun} (hid : seq.runs ≤ row.runId)
    (hs : row.status.terminal = false) : Ended { t with runs := t.runs ++ [row] } := by
  refine ⟨fun e he hterm r hr hre => ?_, fun r hr hterm => ?_, h.once⟩
  · rcases List.mem_append.mp hr with hr | hr
    · exact h.ended e he hterm r hr hre
    · obtain ⟨x, hx, hxe, -⟩ := hk.event_run e he
      have := hk.runs_below x hx
      rw [List.mem_singleton.mp hr] at hre
      omega
  · rcases List.mem_append.mp hr with hr | hr
    · exact h.recorded r hr hterm
    · rw [List.mem_singleton.mp hr, hs] at hterm
      cases hterm

/-- An event that is not terminal says nothing about the end of a run. -/
theorem addEvent (h : Ended t) {row : RunEvent} (hrow : row.eventType.terminal = false) :
    Ended { t with events := t.events ++ [row] } := by
  have hold : ∀ {e}, e ∈ t.events ++ [row] → e.eventType.terminal = true → e ∈ t.events := by
    intro e he hterm
    rcases List.mem_append.mp he with he | he
    · exact he
    · rw [List.mem_singleton.mp he, hrow] at hterm
      cases hterm
  refine ⟨fun e he hterm => h.ended e (hold he hterm) hterm, fun r hr hterm => ?_,
    fun e he e' he' ht ht' => h.once e (hold he ht) e' (hold he' ht') ht ht'⟩
  obtain ⟨e, he, hrest⟩ := h.recorded r hr hterm
  exact ⟨e, List.mem_append_left _ he, hrest⟩

/-- A run moves, and its event is written. -/
theorem move (h : Ended t) (hk : Coherent t seq) {r : JobRun} {set : JobRun → JobRun}
    {row : RunEvent} (hr : r ∈ t.runs) (hset : r.SameRun (set r))
    (htrans : Transition r.status (set r).status row.eventType) (hrow : row.runId = r.runId) :
    Ended { t.setRun r.runId set with events := t.events ++ [row] } := by
  -- a run that moves has no terminal event yet
  have hlive : ∀ e ∈ t.events, e.eventType.terminal = true → e.runId ≠ r.runId := by
    intro e he hterm heq
    have hend := h.ended e he hterm r hr heq.symm
    have := htrans.executing
    rw [RunStatus.executing_eq_not_terminal, hend] at this
    cases this
  refine ⟨fun e he hterm x' hx' hxe => ?_, fun x' hx' hterm => ?_, fun e he e' he' ht ht' heq => ?_⟩
  · obtain ⟨x, hx, rfl⟩ := Tables.mem_setRun.mp hx'
    split at hxe
    · next hxr =>
      rw [hk.run_eq hx hr hxr, hset.runId] at hxe
      rw [if_pos hxr, hk.run_eq hx hr hxr]
      rcases List.mem_append.mp he with he | he
      · exact absurd hxe.symm (hlive e he hterm)
      · rw [List.mem_singleton.mp he, htrans.terminal_iff] at hterm
        exact hterm
    · next hxr =>
      rw [if_neg hxr]
      rcases List.mem_append.mp he with he | he
      · exact h.ended e he hterm x hx hxe
      · rw [List.mem_singleton.mp he, hrow] at hxe
        exact absurd hxe hxr
  · obtain ⟨x, hx, rfl⟩ := Tables.mem_setRun.mp hx'
    split at hterm
    · next hxr =>
      rw [if_pos hxr]
      rw [hk.run_eq hx hr hxr] at hterm ⊢
      refine ⟨row, List.mem_append_right _ (List.mem_singleton_self _), ?_, ?_⟩
      · rw [htrans.terminal_iff, hterm]
      · rw [hset.runId, hrow]
    · next hxr =>
      rw [if_neg hxr]
      obtain ⟨e, he, hrest⟩ := h.recorded x hx hterm
      exact ⟨e, List.mem_append_left _ he, hrest⟩
  · rcases List.mem_append.mp he with he | he <;> rcases List.mem_append.mp he' with he' | he'
    · exact h.once e he e' he' ht ht' heq
    · rw [List.mem_singleton.mp he', hrow] at heq
      exact absurd heq (hlive e he ht)
    · rw [List.mem_singleton.mp he, hrow] at heq
      exact absurd heq.symm (hlive e' he' ht')
    · rw [List.mem_singleton.mp he, List.mem_singleton.mp he']

theorem touch (h : Ended t) (hk : Coherent t seq) {r : JobRun} {set : JobRun → JobRun}
    (hr : r ∈ t.runs) (hset : r.SameRun (set r)) (hstatus : (set r).status = r.status) :
    Ended (t.setRun r.runId set) := by
  have hback : ∀ x' ∈ (t.setRun r.runId set).runs, ∃ x ∈ t.runs, x'.runId = x.runId ∧
      x'.status = x.status := by
    intro x' hx'
    obtain ⟨x, hx, rfl⟩ := Tables.mem_setRun.mp hx'
    split
    · next hxr =>
      rw [hk.run_eq hx hr hxr]
      exact ⟨r, hr, hset.runId, hstatus⟩
    · exact ⟨x, hx, rfl, rfl⟩
  refine ⟨fun e he hterm x' hx' hxe => ?_, fun x' hx' hterm => ?_, h.once⟩
  · obtain ⟨x, hx, hid, hs⟩ := hback x' hx'
    rw [hs]
    exact h.ended e he hterm x hx (hid ▸ hxe)
  · obtain ⟨x, hx, hid, hs⟩ := hback x' hx'
    rw [hid]
    exact h.recorded x hx (hs ▸ hterm)

theorem setEvent (h : Ended t) {id : Nat} {set : RunEvent → RunEvent}
    (hset : ∀ e, (set e).eventId = e.eventId ∧ (set e).runId = e.runId ∧
      (set e).eventType = e.eventType) : Ended (t.setEvent id set) := by
  have hback : ∀ e' ∈ (t.setEvent id set).events, ∃ e ∈ t.events, e'.eventId = e.eventId ∧
      e'.runId = e.runId ∧ e'.eventType = e.eventType := by
    intro e' he'
    obtain ⟨e, he, rfl⟩ := Tables.mem_setEvent.mp he'
    split
    · exact ⟨e, he, hset e⟩
    · exact ⟨e, he, rfl, rfl, rfl⟩
  refine ⟨fun e' he' hterm r hr hre => ?_, fun r hr hterm => ?_, fun e₁ he₁ e₂ he₂ ht₁ ht₂ heq => ?_⟩
  · obtain ⟨e, he, -, hrun, htype⟩ := hback e' he'
    exact h.ended e he (htype ▸ hterm) r hr (hrun ▸ hre)
  · obtain ⟨e, he, hte, hre⟩ := h.recorded r hr hterm
    refine ⟨_, Tables.mem_setEvent.mpr ⟨e, he, rfl⟩, ?_⟩
    split
    · rw [(hset e).2.1, (hset e).2.2]
      exact ⟨hte, hre⟩
    · exact ⟨hte, hre⟩
  · obtain ⟨x₁, hx₁, hid₁, hrun₁, htype₁⟩ := hback e₁ he₁
    obtain ⟨x₂, hx₂, hid₂, hrun₂, htype₂⟩ := hback e₂ he₂
    rw [hid₁, hid₂]
    exact h.once x₁ hx₁ x₂ hx₂ (htype₁ ▸ ht₁) (htype₂ ▸ ht₂) (by rw [← hrun₁, ← hrun₂, heq])

/-- Every change keeps the agreement. -/
theorem change {m : Mode} {libs : Libs} {L L' : Ledger} (h : Ended L.tables)
    (hk : Coherent L.tables L.seq) (hc : Change m libs L L') : Ended L'.tables := by
  cases hc with
  | spawn hjob hsame hactive hidle hclash hcause =>
    exact (h.addRun hk le_rfl rfl).addEvent rfl
  | move hdue hr hset htrans hends => exact h.move hk hr hset htrans rfl
  | touch hr hset hstatus => exact h.touch hk hr hset hstatus
  | skip he hterminal hnew hspent hjob hchild hskip =>
    refine h.addEvent ?_
    cases hskip <;> rfl
  | stamp hspent hkey => exact h.setEvent fun e => ⟨rfl, rfl, rfl⟩
  | _ => exact h.congr rfl rfl

end Ended

end TaskScheduler
