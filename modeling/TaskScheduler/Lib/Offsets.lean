import Mathlib.Algebra.Order.Group.Abs
import Mathlib.Algebra.Order.Ring.Int

/-! Readings of a clock whose offset varies, and the instants that they name: when the instants of a
set of readings are those of the same set read with one offset. -/

namespace TaskScheduler.Lib

/-- The instants at which the readings in `local_` are made. -/
def Named (off : Int → Int) (local_ : Int → Prop) (t : Int) : Prop :=
  ∃ w, local_ w ∧ w - off w = t

/-- In the window, `utc` are the instants of the readings. -/
def Agrees (off : Int → Int) (local_ utc window : Int → Prop) : Prop :=
  ∀ t, window t → (utc t ↔ Named off local_ t)

/-- The readings that name an instant of the window, with one offset or with their own, have that
offset. -/
def Steady (off : Int → Int) (o : Int) (local_ window : Int → Prop) : Prop :=
  ∀ w, local_ w → window (w - o) ∨ window (w - off w) → off w = o

/-- The readings are further apart than the offset moves. -/
structure Spaced (off : Int → Int) (o : Int) (local_ : Int → Prop) (gap : Int) : Prop where
  offset : ∀ w, local_ w → |off w - o| < gap
  apart : ∀ w w', local_ w → local_ w' → w ≠ w' → gap ≤ |w - w'|

variable {off : Int → Int} {o gap : Int} {local_ utc window : Int → Prop}

/-- Readings that far apart are told apart by the instants that they name. -/
theorem Spaced.unique (h : Spaced off o local_ gap) {w w' : Int} (hw : local_ w) (hw' : local_ w')
    (hsame : w - off w = w' - o) : w = w' := by
  by_contra hne
  have hgap := h.apart w w' hw hw' hne
  have hdiff : w - w' = off w - o := by omega
  rw [hdiff] at hgap
  exact absurd (h.offset w hw) (not_lt.mpr hgap)

end TaskScheduler.Lib
