import Mathlib.Data.List.Forall2

/-! Lists that are related element by element: what carries over from one to the other. -/

namespace TaskScheduler.Lib

variable {α β : Type} {R : α → α → Prop} {l l' : List α}

theorem pointwise_trans (htrans : ∀ {a b c}, R a b → R b c → R a c) {l'' : List α}
    (h : List.Forall₂ R l l') (h' : List.Forall₂ R l' l'') : List.Forall₂ R l l'' := by
  induction h generalizing l'' with
  | nil => exact h'
  | cons hab _ ih =>
    cases h' with
    | cons hbc hrest => exact .cons (htrans hab hbc) (ih hrest)

/-- Every element is related to one of the other list. -/
theorem pointwise_right {a : α} (h : List.Forall₂ R l l') (ha : a ∈ l) : ∃ b ∈ l', R a b := by
  induction h with
  | nil => cases ha
  | cons hr _ ih =>
    rcases List.mem_cons.mp ha with rfl | ha
    · exact ⟨_, List.mem_cons_self, hr⟩
    · obtain ⟨b, hb, hr⟩ := ih ha
      exact ⟨b, List.mem_cons_of_mem _ hb, hr⟩

theorem pointwise_left {b : α} (h : List.Forall₂ R l l') (hb : b ∈ l') : ∃ a ∈ l, R a b := by
  induction h with
  | nil => cases hb
  | cons hr _ ih =>
    rcases List.mem_cons.mp hb with rfl | hb
    · exact ⟨_, List.mem_cons_self, hr⟩
    · obtain ⟨a, ha, hr⟩ := ih hb
      exact ⟨a, List.mem_cons_of_mem _ ha, hr⟩

/-- What holds of any two elements holds of any two of the other list, if related pairs have it
together. -/
theorem pointwise_pairwise {P : α → α → Prop} (h : List.Forall₂ R l l') (hP : l.Pairwise P)
    (hstep : ∀ {a a' b b'}, R a a' → R b b' → P a b → P a' b') : l'.Pairwise P := by
  induction h with
  | nil => exact hP
  | cons hr hrest ih =>
    obtain ⟨hhead, htail⟩ := List.pairwise_cons.mp hP
    refine List.pairwise_cons.mpr ⟨fun b hb => ?_, ih htail⟩
    obtain ⟨a, ha, hab⟩ := pointwise_left hrest hb
    exact hstep hr hab (hhead a ha)

/-- A property that related elements lose but do not gain is counted at most as often. -/
theorem pointwise_countP {p : α → Bool} (h : List.Forall₂ R l l')
    (hp : ∀ {a b}, R a b → p b = true → p a = true) : l'.countP p ≤ l.countP p := by
  induction h with
  | nil => exact Nat.le_refl _
  | @cons a b l l' hr _ ih =>
    rw [List.countP_cons, List.countP_cons]
    by_cases hb : p b = true
    · rw [if_pos hb, if_pos (hp hr hb)]
      exact Nat.add_le_add_right ih 1
    · rw [if_neg hb]
      exact Nat.le_add_right_of_le ih

/-- A predicate that holds less often, and not where the other one does once, counts less. -/
theorem countP_lt {p q : α → Bool} {l : List α} {a : α} (hle : ∀ b ∈ l, q b = true → p b = true)
    (ha : a ∈ l) (hp : p a = true) (hq : q a = false) : l.countP q < l.countP p := by
  obtain ⟨before, after, rfl⟩ := List.append_of_mem ha
  have hbefore : before.countP q ≤ before.countP p :=
    List.countP_mono_left fun b hb => hle b (List.mem_append_left _ hb)
  have hafter : after.countP q ≤ after.countP p := List.countP_mono_left fun b hb =>
    hle b (List.mem_append_right _ (List.mem_cons_of_mem _ hb))
  simp only [List.countP_append, List.countP_cons, hp, hq, if_true, Bool.false_eq_true, if_false]
  omega

end TaskScheduler.Lib
