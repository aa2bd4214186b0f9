import Mathlib.Algebra.Order.Ring.Nat

/-! Numbers in decimal with a fixed number of digits, and texts that are made of such numbers: the
order of the texts is that of the numbers. -/

namespace TaskScheduler.Lib

/-- The last `k` decimal digits of `n`. -/
def pad : Nat → Nat → List Char
  | 0, _ => []
  | k + 1, n => pad k (n / 10) ++ [(n % 10).digitChar]

@[simp] theorem length_pad (k n : Nat) : (pad k n).length = k := by
  induction k generalizing n with
  | zero => rfl
  | succ k ih => simp [pad, ih]

/-- Texts that begin with parts of one length compare by these parts first. -/
theorem append_lt_append_iff {p q a b : List Char} (h : p.length = q.length) :
    p ++ a < q ++ b ↔ p < q ∨ p = q ∧ a < b := by
  induction p generalizing q with
  | nil =>
    obtain rfl := List.length_eq_zero_iff.mp h.symm
    simp
  | cons x p ih =>
    cases q with
    | nil => cases h
    | cons y q =>
      rw [List.length_cons, List.length_cons, Nat.succ_inj] at h
      simp only [List.cons_append, List.cons_lt_cons_iff, ih h, List.cons.injEq]
      constructor
      · rintro (hxy | ⟨rfl, hpq | ⟨rfl, hab⟩⟩)
        · exact .inl (.inl hxy)
        · exact .inl (.inr ⟨rfl, hpq⟩)
        · exact .inr ⟨⟨rfl, rfl⟩, hab⟩
      · rintro ((hxy | ⟨rfl, hpq⟩) | ⟨⟨rfl, rfl⟩, hab⟩)
        · exact .inl hxy
        · exact .inr ⟨rfl, .inl hpq⟩
        · exact .inr ⟨rfl, .inr ⟨rfl, hab⟩⟩

theorem ofList_lt_iff (cs ds : List Char) : String.ofList cs < String.ofList ds ↔ cs < ds := by
  rw [String.lt_iff, String.toList_ofList, String.toList_ofList]

theorem digitChar_lt_iff : ∀ a < 10, ∀ b < 10, a.digitChar < b.digitChar ↔ a < b := by
  decide

theorem digitChar_inj : ∀ a < 10, ∀ b < 10, a.digitChar = b.digitChar ↔ a = b := by
  decide

theorem append_eq_append_iff {p q a b : List Char} (h : p.length = q.length) :
    p ++ a = q ++ b ↔ p = q ∧ a = b := by
  constructor
  · exact fun heq => List.append_inj heq h
  · rintro ⟨rfl, rfl⟩
    rfl

theorem pad_inj {k m n : Nat} (hm : m < 10 ^ k) (hn : n < 10 ^ k) : pad k m = pad k n ↔ m = n := by
  induction k generalizing m n with
  | zero =>
    rw [Nat.pow_zero] at hm hn
    simp only [pad, true_iff]
    omega
  | succ k ih =>
    rw [Nat.pow_succ] at hm hn
    have hlast := digitChar_inj (m % 10) (Nat.mod_lt m (by decide)) (n % 10)
      (Nat.mod_lt n (by decide))
    have hsame : (pad k (m / 10)).length = (pad k (n / 10)).length := by simp
    rw [pad, pad, append_eq_append_iff hsame, ih (by omega) (by omega), List.cons.injEq, hlast,
      and_iff_left rfl]
    omega

/-- The order of the texts is that of the numbers. -/
theorem pad_lt_iff {k m n : Nat} (hm : m < 10 ^ k) (hn : n < 10 ^ k) :
    pad k m < pad k n ↔ m < n := by
  induction k generalizing m n with
  | zero =>
    rw [Nat.pow_zero] at hm hn
    have : ¬m < n := by omega
    simpa [pad] using this
  | succ k ih =>
    rw [Nat.pow_succ] at hm hn
    have hlast := digitChar_lt_iff (m % 10) (Nat.mod_lt m (by decide)) (n % 10)
      (Nat.mod_lt n (by decide))
    have hsame : (pad k (m / 10)).length = (pad k (n / 10)).length := by simp
    have hend : [(m % 10).digitChar] < [(n % 10).digitChar] ↔ m % 10 < n % 10 := by
      rw [List.cons_lt_cons_iff, hlast]
      simp
    rw [pad, pad, append_lt_append_iff hsame, ih (by omega) (by omega),
      pad_inj (by omega) (by omega), hend]
    omega

end TaskScheduler.Lib
