import Mathlib.Logic.Relation

/-! Walks up a partial function.  An element is rooted when the walk from it ends; a walk that comes
back to where it was does not. -/

namespace TaskScheduler.Lib

variable {α : Type} {up : α → Option α} {a b : α} {m n : Nat}

/-- The walk from an element visits `n` elements, itself included, and ends. -/
inductive Rooted (up : α → Option α) : Nat → α → Prop
  | root {a : α} (h : up a = none) : Rooted up 1 a
  | step {a b : α} {n : Nat} (h : up a = some b) (hb : Rooted up n b) : Rooted up (n + 1) a

/-- One step of the walk. -/
def Up (up : α → Option α) (a b : α) : Prop := up a = some b

namespace Rooted

theorem pos (h : Rooted up n a) : 0 < n := by
  cases h <;> omega

/-- The length of the walk is unique. -/
theorem unique (h : Rooted up m a) (h' : Rooted up n a) : m = n := by
  induction h generalizing n with
  | root hroot =>
    cases h' with
    | root _ => rfl
    | step hup _ => simp [hroot] at hup
  | step hup hb ih =>
    cases h' with
    | root hroot => simp [hroot] at hup
    | step hup' hb' =>
      obtain rfl : _ = _ := Option.some.inj (hup.symm.trans hup')
      rw [ih hb']

/-- A step of the walk leads to a shorter one. -/
theorem of_up (h : Rooted up n a) (hab : up a = some b) : ∃ m, n = m + 1 ∧ Rooted up m b := by
  cases h with
  | root hroot => simp [hroot] at hab
  | step hup hb =>
    obtain rfl : _ = _ := Option.some.inj (hup.symm.trans hab)
    exact ⟨_, rfl, hb⟩

theorem descend (h : Rooted up n a) (hab : Relation.TransGen (Up up) a b) :
    ∃ m < n, Rooted up m b := by
  induction hab with
  | single hstep =>
    obtain ⟨m, rfl, hm⟩ := h.of_up hstep
    exact ⟨m, by omega, hm⟩
  | tail _ hstep ih =>
    obtain ⟨m, hlt, hm⟩ := ih
    obtain ⟨k, rfl, hk⟩ := hm.of_up hstep
    exact ⟨k, by omega, hk⟩

/-- A rooted element is on no cycle. -/
theorem acyclic (h : Rooted up n a) : ¬Relation.TransGen (Up up) a a := by
  intro hcycle
  obtain ⟨m, hlt, hm⟩ := h.descend hcycle
  have := h.unique hm
  omega

end Rooted

end TaskScheduler.Lib
