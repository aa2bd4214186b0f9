import Mathlib.Data.List.Basic
import Mathlib.Tactic.SplitIfs

/-! A list read page by page: its pages, and the loop that fetches one after the other until one is
short. -/

namespace TaskScheduler.Lib

variable {α β : Type} {l : List α} {p : Nat}

/-- Page `k` of a list, in pages of `p` entries; the first page is page 0. -/
def pageOf (p : Nat) (l : List α) (k : Nat) : List α := (l.drop (k * p)).take p

theorem length_pageOf (k : Nat) : (pageOf p l k).length = min p (l.length - k * p) := by
  simp [pageOf]

/-- The first `n` pages, one after the other. -/
theorem flatMap_pageOf (n : Nat) : (List.range n).flatMap (pageOf p l) = l.take (n * p) := by
  induction n with
  | zero => simp
  | succ n ih =>
    rw [List.range_succ, List.flatMap_append, ih, List.flatMap_singleton, pageOf, Nat.succ_mul,
      List.take_add]

/-- A page with another one after it is full. -/
theorem length_pageOf_of_next {k : Nat} (h : pageOf p l (k + 1) ≠ []) :
    (pageOf p l k).length = p := by
  have hpos : 0 < (pageOf p l (k + 1)).length := List.length_pos_iff.mpr h
  rw [length_pageOf] at hpos ⊢
  rw [Nat.succ_mul] at hpos
  omega

theorem map_pageOf (f : α → β) (k : Nat) : (pageOf p l k).map f = pageOf p (l.map f) k := by
  simp only [pageOf, List.map_take, List.map_drop]

/-! ### The loop over the pages -/

variable {ε γ : Type} {fetch : Nat → Except ε (List α)} {take : γ → List α → γ}

/-- The pages are fetched from number `page` on, and each is taken in, until one has fewer than `p`
entries; `none` when the fuel is spent before. -/
def readPages (p : Nat) (fetch : Nat → Except ε (List α)) (take : γ → List α → γ) :
    Nat → Nat → γ → Option (Except ε γ)
  | 0, _, _ => none
  | fuel + 1, page, acc =>
    match fetch page with
    | .error e => some (.error e)
    | .ok items =>
      let acc := take acc items
      if items.length < p then some (.ok acc) else readPages p fetch take fuel (page + 1) acc

/-- A loop that has ended ends the same way with more fuel. -/
theorem readPages_mono {m n page : Nat} {acc : γ} {res : Except ε γ} (hmn : m ≤ n)
    (h : readPages p fetch take m page acc = some res) :
    readPages p fetch take n page acc = some res := by
  induction m generalizing n page acc with
  | zero => cases h
  | succ m ih =>
    obtain ⟨n, rfl⟩ : ∃ k, n = k + 1 := ⟨n - 1, by omega⟩
    unfold readPages at h ⊢
    cases hfetch : fetch page with
    | error e => rwa [hfetch] at h
    | ok items =>
      simp only [hfetch] at h ⊢
      split_ifs at h ⊢
      · exact h
      · exact ih (by omega) h

/-- Only the page that the list ends in is short. -/
theorem length_pageOf_lt_iff (hp : 0 < p) {k : Nat} (hk : k ≤ l.length / p) :
    (pageOf p l k).length < p ↔ k = l.length / p := by
  have hstart : k * p ≤ l.length := (Nat.le_div_iff_mul_le hp).mp hk
  have hnext : k + 1 ≤ l.length / p ↔ (k + 1) * p ≤ l.length := Nat.le_div_iff_mul_le hp
  rw [Nat.succ_mul] at hnext
  rw [length_pageOf]
  omega

theorem pageOf_append_drop (k : Nat) : pageOf p l k ++ l.drop ((k + 1) * p) = l.drop (k * p) := by
  rw [pageOf, Nat.succ_mul, ← List.drop_drop, List.take_append_drop]

/-- From page `k` on, the loop takes in the rest of the list. -/
theorem readPages_from (hp : 0 < p)
    (htake : ∀ acc xs ys, take (take acc xs) ys = take acc (xs ++ ys)) {k : Nat}
    (hk : k ≤ l.length / p)
    (hfetch : ∀ j, k ≤ j → j ≤ l.length / p → fetch (j + 1) = .ok (pageOf p l j)) {fuel : Nat}
    (hfuel : l.length / p < k + fuel) (acc : γ) :
    readPages p fetch take fuel (k + 1) acc = some (.ok (take acc (l.drop (k * p)))) := by
  induction fuel generalizing k acc with
  | zero => omega
  | succ fuel ih =>
    have hshort := length_pageOf_lt_iff hp hk
    simp only [readPages, hfetch k (by omega) hk]
    by_cases hlast : k = l.length / p
    · have hpage : pageOf p l k = l.drop (k * p) := by
        rw [← pageOf_append_drop, List.drop_eq_nil_iff.mpr, List.append_nil]
        have hlen := Nat.lt_mul_div_succ l.length hp
        rw [← hlast, Nat.mul_comm] at hlen
        exact Nat.le_of_lt hlen
      rw [if_pos (hshort.mpr hlast), hpage]
    · rw [if_neg (mt hshort.mp hlast), ih (by omega) (fun j hj => hfetch j (by omega)) (by omega),
        htake, pageOf_append_drop]

variable (fetch take) in
/-- The loop over the pages of a list, numbered from 1, takes in the whole list.  An empty page ends
it where the length is a multiple of `p`. -/
theorem readPages_ok (hp : 0 < p) (htake : ∀ acc xs ys, take (take acc xs) ys = take acc (xs ++ ys))
    (hfetch : ∀ j ≤ l.length / p, fetch (j + 1) = .ok (pageOf p l j)) {fuel : Nat}
    (hfuel : l.length / p < fuel) (acc : γ) :
    readPages p fetch take fuel 1 acc = some (.ok (take acc l)) := by
  have h := readPages_from hp htake (Nat.zero_le _) (fun j _ => hfetch j)
    (show l.length / p < 0 + fuel by omega) acc
  rwa [Nat.zero_mul, List.drop_zero] at h

/-- An error on a page from `k` on ends the loop, whatever came before it. -/
theorem readPages_stops (hp : 0 < p) {k : Nat}
    (hfetch : ∀ j, k ≤ j → j ≤ l.length / p →
      fetch (j + 1) = .ok (pageOf p l j) ∨ ∃ e, fetch (j + 1) = .error e)
    (herror : ∃ j, k ≤ j ∧ j ≤ l.length / p ∧ ∃ e, fetch (j + 1) = .error e) {fuel : Nat}
    (hfuel : l.length / p < k + fuel) (acc : γ) :
    ∃ e j, readPages p fetch take fuel (k + 1) acc = some (.error e) ∧ fetch j = .error e := by
  obtain ⟨j, hkj, hj, herr⟩ := herror
  induction fuel generalizing k acc with
  | zero => omega
  | succ fuel ih =>
    rcases hfetch k (by omega) (by omega) with hpage | ⟨e, he⟩
    · have hne : k ≠ j := by
        rintro rfl
        obtain ⟨e, he⟩ := herr
        rw [hpage] at he
        cases he
      have hlong : ¬(pageOf p l k).length < p := by
        rw [length_pageOf_lt_iff hp (by omega)]
        omega
      simp only [readPages, hpage, if_neg hlong]
      exact ih (fun i hi => hfetch i (by omega)) (by omega) _ (by omega)
    · exact ⟨e, k + 1, by simp only [readPages, he], he⟩

variable (fetch take) in
/-- An error on one of the pages ends the loop with an error. -/
theorem readPages_error (hp : 0 < p)
    (hfetch : ∀ j ≤ l.length / p,
      fetch (j + 1) = .ok (pageOf p l j) ∨ ∃ e, fetch (j + 1) = .error e)
    (herror : ∃ j ≤ l.length / p, ∃ e, fetch (j + 1) = .error e) {fuel : Nat}
    (hfuel : l.length / p < fuel) (acc : γ) :
    ∃ e j, readPages p fetch take fuel 1 acc = some (.error e) ∧ fetch j = .error e := by
  obtain ⟨j, hj, herr⟩ := herror
  exact readPages_stops hp (fun i _ => hfetch i) ⟨j, Nat.zero_le _, hj, herr⟩
    (show l.length / p < 0 + fuel by omega) acc

end TaskScheduler.Lib
