import Mathlib.Data.List.Nodup
import Mathlib.Data.List.Perm.Basic
import TaskScheduler.Lib.Pointwise

/-! Lists that are put together from parts without duplicates: an element occurs in the whole as
often as there are parts that have it. -/

namespace TaskScheduler.Lib

variable {α β : Type} [DecidableEq β]

theorem count_parts {l : List α} {f : α → List β} (h : ∀ a ∈ l, (f a).Nodup) (x : β) :
    (l.flatMap f).count x = l.countP fun a => decide (x ∈ f a) := by
  induction l with
  | nil => rfl
  | cons a l ih =>
    have hhead := h a List.mem_cons_self
    rw [List.flatMap_cons, List.count_append, ih fun b hb => h b (List.mem_cons_of_mem _ hb),
      List.countP_cons]
    by_cases hx : x ∈ f a
    · rw [List.count_eq_one_of_mem hhead hx, if_pos (decide_eq_true hx)]
      omega
    · rw [List.count_eq_zero_of_not_mem hx, if_neg (by simpa using hx)]
      omega

/-- Two ways to put a list together agree on an element, if the parts of one that have it are parts
of the other that have it. -/
theorem parts_agree {l : List α} {f g : α → List β} (hf : ∀ a ∈ l, (f a).Nodup)
    (hg : ∀ a ∈ l, (g a).Nodup) (hperm : (l.flatMap f).Perm (l.flatMap g)) {x : β}
    (hsub : ∀ a ∈ l, x ∈ f a → x ∈ g a) {a : α} (ha : a ∈ l) (hx : x ∈ g a) : x ∈ f a := by
  by_contra hnot
  have hlt : (l.countP fun a => decide (x ∈ f a)) < l.countP fun a => decide (x ∈ g a) := by
    refine countP_lt (fun b hb h => ?_) ha (decide_eq_true hx) (decide_eq_false hnot)
    exact decide_eq_true (hsub b hb (of_decide_eq_true h))
  rw [← count_parts hf, ← count_parts hg, hperm.count_eq] at hlt
  exact Nat.lt_irrefl _ hlt

end TaskScheduler.Lib
