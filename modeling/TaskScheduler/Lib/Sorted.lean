import Mathlib.Data.List.Sort

/-! Rows in the order of a relation or a key: what a filter does to them. -/

namespace TaskScheduler.Lib

/-- A filter commutes with a sort that no two rows tie in. -/
theorem insertionSort_filter {α : Type} {r : α → α → Prop} [DecidableRel r] [Std.Total r]
    [IsTrans α r] {l : List α} (hanti : ∀ a ∈ l, ∀ b ∈ l, r a b → r b a → a = b) (p : α → Bool) :
    (l.filter p).insertionSort r = (l.insertionSort r).filter p := by
  have hperm : ((l.filter p).insertionSort r).Perm ((l.insertionSort r).filter p) :=
    (List.perm_insertionSort r _).trans ((List.perm_insertionSort r l).filter p).symm
  refine hperm.eq_of_pairwise (fun a b ha hb => ?_) (List.pairwise_insertionSort r _)
    ((List.pairwise_insertionSort r l).sublist List.filter_sublist)
  refine hanti a ?_ b ?_
  · exact (List.mem_filter.mp ((List.mem_insertionSort r).mp ha)).1
  · exact (List.mem_insertionSort r).mp (List.mem_filter.mp hb).1

variable {α : Type} (key : α → Nat)

/-- The rows in the order of their keys. -/
def inOrder (l : List α) : List α := l.insertionSort fun a b => key a ≤ key b

theorem inOrder_perm (l : List α) : (inOrder key l).Perm l := List.perm_insertionSort _ _

theorem total_key : Std.Total fun a b : α => key a ≤ key b := ⟨fun a b => le_total (key a) (key b)⟩

theorem trans_key : IsTrans α fun a b => key a ≤ key b := ⟨fun _ _ _ => le_trans⟩

variable {key}

/-- Rows with distinct keys do not tie. -/
theorem inOrder_filter {l : List α} (hnd : (l.map key).Nodup) (p : α → Bool) :
    inOrder key (l.filter p) = (inOrder key l).filter p := by
  have := total_key key
  have := trans_key key
  refine insertionSort_filter (fun a ha b hb hab hba => ?_) p
  exact List.inj_on_of_nodup_map hnd ha hb (le_antisymm hab hba)

/-- The rows after the first one are those with other keys. -/
theorem filter_key_ne_head {a : α} {l : List α} (hnd : ((a :: l).map key).Nodup) :
    (a :: l).filter (fun b => key b != key a) = l := by
  rw [List.map_cons, List.nodup_cons] at hnd
  rw [List.filter_cons_of_neg (by simp), List.filter_eq_self]
  intro b hb
  have hne : key b ≠ key a := fun h => hnd.1 (h ▸ List.mem_map_of_mem hb)
  simpa using hne

end TaskScheduler.Lib
