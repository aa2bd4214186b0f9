/-! Folds of steps that may fail: how they pass through a map of the states. -/

namespace TaskScheduler.Lib

variable {ε α β σ τ : Type}

/-- A map of the states that every step respects is respected by the fold. -/
theorem foldlM_map_state {f : σ → α → Except ε σ} {g : τ → β → Except ε τ} {h : σ → τ} {k : α → β}
    (as : List α) (hstep : ∀ s, ∀ a ∈ as, (f s a).map h = g (h s) (k a)) (s : σ) :
    (as.foldlM f s).map h = (as.map k).foldlM g (h s) := by
  induction as generalizing s with
  | nil => rfl
  | cons a as ih =>
    have hone := hstep s a List.mem_cons_self
    rw [List.map_cons, List.foldlM_cons, List.foldlM_cons, ← hone]
    cases f s a with
    | error e => rfl
    | ok s' => exact ih (fun s b hb => hstep s b (List.mem_cons_of_mem _ hb)) s'

/-- A fold that ends keeps an invariant of its steps. -/
theorem foldlM_invariant {f : σ → α → Except ε σ} {I : σ → Prop} {as : List α}
    (hstep : ∀ s s', ∀ a ∈ as, I s → f s a = .ok s' → I s') {s s' : σ} (hs : I s)
    (h : as.foldlM f s = .ok s') : I s' := by
  induction as generalizing s with
  | nil =>
    cases h
    exact hs
  | cons a as ih =>
    rw [List.foldlM_cons] at h
    cases ha : f s a with
    | error e =>
      rw [ha] at h
      cases h
    | ok s₁ =>
      rw [ha] at h
      exact ih (fun t t' b hb => hstep t t' b (List.mem_cons_of_mem _ hb))
        (hstep s s₁ a List.mem_cons_self hs ha) h

/-- A fold whose steps end under an invariant, and keep it, ends. -/
theorem foldlM_ok {f : σ → α → Except ε σ} {I : σ → Prop} {as : List α}
    (hstep : ∀ s, ∀ a ∈ as, I s → ∃ s', f s a = .ok s' ∧ I s') {s : σ} (hs : I s) :
    ∃ s', as.foldlM f s = .ok s' := by
  induction as generalizing s with
  | nil => exact ⟨s, rfl⟩
  | cons a as ih =>
    obtain ⟨s₁, hs₁, hI⟩ := hstep s a List.mem_cons_self hs
    rw [List.foldlM_cons, hs₁]
    exact ih (fun t b hb => hstep t b (List.mem_cons_of_mem _ hb)) hI

/-- A fold over two lists ends where the fold over the second one does. -/
theorem foldlM_append_ok {f : σ → α → Except ε σ} {as bs : List α} {s s' : σ} :
    (as ++ bs).foldlM f s = .ok s' ↔ ∃ s₁, as.foldlM f s = .ok s₁ ∧ bs.foldlM f s₁ = .ok s' := by
  rw [List.foldlM_append]
  cases as.foldlM f s with
  | error e => simp [bind, Except.bind]
  | ok s₁ => simp [bind, Except.bind]

end TaskScheduler.Lib
