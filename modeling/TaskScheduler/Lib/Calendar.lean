import Mathlib.Data.Nat.Basic

/-! The proleptic Gregorian calendar: the days from 1 January of year 1, which is day 1, and the
dates that they fall on.  The number of a date is found again, and dates come in the order of their
days. -/

namespace TaskScheduler.Lib

/-- A year, a month and a day. -/
structure Ymd where
  year : Nat
  month : Nat
  day : Nat
  deriving DecidableEq, Repr

def leapYear (year : Nat) : Bool := year % 4 == 0 && (year % 100 != 0 || year % 400 == 0)

/-- The days of the years before `year`. -/
def daysBeforeYear (year : Nat) : Nat :=
  (year - 1) * 365 + (year - 1) / 4 - (year - 1) / 100 + (year - 1) / 400

/-- The days of the months of a year, of a leap year or another. -/
def monthDays (leap : Bool) : Nat → Nat
  | 2 => if leap then 29 else 28
  | 4 | 6 | 9 | 11 => 30
  | _ => 31

/-- The days of the months before `month`. -/
def daysBeforeMonth (leap : Bool) : Nat → Nat
  | 0 | 1 => 0
  | month + 1 => daysBeforeMonth leap month + monthDays leap month

/-- The day on which a date falls. -/
def Ymd.ordinal (d : Ymd) : Nat :=
  daysBeforeYear d.year + daysBeforeMonth (leapYear d.year) d.month + d.day

/-- The month and the day of the month of the day `n` of a year, from 0: an estimate of the month
that is exact or one too high. -/
def monthOfDay (leap : Bool) (n : Nat) : Nat × Nat :=
  let month := (n + 50) / 32
  if n < daysBeforeMonth leap month then (month - 1, n - daysBeforeMonth leap (month - 1) + 1)
  else (month, n - daysBeforeMonth leap month + 1)

/-- The date of day `n`: cycles of 400, 100 and 4 years, and the years of the last one. -/
def Ymd.ofOrdinal (n : Nat) : Ymd :=
  let n400 := (n - 1) / 146097
  let n100 := (n - 1) % 146097 / 36524
  let n4 := (n - 1) % 146097 % 36524 / 1461
  let n1 := (n - 1) % 146097 % 36524 % 1461 / 365
  let rest := (n - 1) % 146097 % 36524 % 1461 % 365
  let year := n400 * 400 + 1 + n100 * 100 + n4 * 4 + n1
  if n1 = 4 ∨ n100 = 4 then ⟨year - 1, 12, 31⟩
  else
    let leap := n1 == 3 && (n4 != 24 || n100 == 3)
    let md := monthOfDay leap rest
    ⟨year, md.1, md.2⟩

/-- The month and the day exist. -/
structure Ymd.Valid (d : Ymd) : Prop where
  year : 1 ≤ d.year
  month_low : 1 ≤ d.month
  month_high : d.month ≤ 12
  day_low : 1 ≤ d.day
  day_high : d.day ≤ monthDays (leapYear d.year) d.month

/-! ### Days of a year -/

theorem monthOfDay_spec : ∀ leap : Bool, ∀ n < 365 + leap.toNat,
    let md := monthOfDay leap n
    (1 ≤ md.1 ∧ md.1 ≤ 12 ∧ 1 ≤ md.2 ∧ md.2 ≤ monthDays leap md.1) ∧
      daysBeforeMonth leap md.1 + md.2 = n + 1 := by
  decide +kernel

/-- The months before are over when a month begins. -/
theorem daysBeforeMonth_lt : ∀ leap : Bool, ∀ month' ≤ 12, ∀ month < month', 1 ≤ month →
    daysBeforeMonth leap month + monthDays leap month ≤ daysBeforeMonth leap month' := by
  decide

theorem daysBeforeMonth_year : ∀ leap : Bool, ∀ month ≤ 12, 1 ≤ month →
    daysBeforeMonth leap month + monthDays leap month ≤ 365 + leap.toNat := by
  decide

theorem monthDays_le (leap : Bool) (month : Nat) : monthDays leap month ≤ 31 := by
  unfold monthDays
  split
  · cases leap <;> decide
  all_goals decide

/-! ### Years -/

theorem leapYear_iff (year : Nat) :
    leapYear year = true ↔ year % 4 = 0 ∧ (year % 100 ≠ 0 ∨ year % 400 = 0) := by
  simp [leapYear]

theorem div_step (k : Nat) {n : Nat} (hn : 1 ≤ n) :
    n / k = (n - 1) / k + if n % k = 0 then 1 else 0 := by
  obtain ⟨m, rfl⟩ := Nat.exists_eq_add_of_le' hn
  rw [Nat.add_sub_cancel, Nat.succ_div]
  simp only [Nat.dvd_iff_mod_eq_zero]

theorem daysBeforeYear_succ {year : Nat} (h : 1 ≤ year) :
    daysBeforeYear (year + 1) = daysBeforeYear year + 365 + (leapYear year).toNat := by
  have hle : (year - 1) / 100 ≤ (year - 1) / 4 := Nat.div_le_div_left (by decide) (by decide)
  have hleap := leapYear_iff year
  unfold daysBeforeYear
  rw [Nat.add_sub_cancel, div_step 4 h, div_step 100 h, div_step 400 h]
  cases hl : leapYear year with
  | false =>
    simp only [hl, Bool.false_eq_true, false_iff] at hleap
    simp only [Bool.toNat_false]
    split_ifs <;> omega
  | true =>
    simp only [hl, true_iff] at hleap
    simp only [Bool.toNat_true]
    split_ifs <;> omega

theorem daysBeforeYear_mono {year year' : Nat} (hpos : 1 ≤ year) (h : year ≤ year') :
    daysBeforeYear year ≤ daysBeforeYear year' := by
  induction h with
  | refl => exact Nat.le_refl _
  | @step m hm ih =>
    rw [Nat.succ_eq_add_one, daysBeforeYear_succ (Nat.le_trans hpos hm)]
    omega

/-! ### Dates -/

/-- A year of a cycle of 400, by its place in the cycles of 100 and 4. -/
theorem daysBeforeYear_cycles {a b c d : Nat} (hb : b ≤ 3) (hc : c ≤ 24) (hd : d ≤ 3) :
    daysBeforeYear (a * 400 + 1 + b * 100 + c * 4 + d) =
      a * 146097 + b * 36524 + c * 1461 + d * 365 := by
  unfold daysBeforeYear
  omega

theorem leapYear_cycles {a b c d : Nat} (hb : b ≤ 3) (hc : c ≤ 24) (hd : d ≤ 3) :
    leapYear (a * 400 + 1 + b * 100 + c * 4 + d) = (d == 3 && (c != 24 || b == 3)) := by
  rw [Bool.eq_iff_iff, leapYear_iff]
  simp only [Bool.and_eq_true, Bool.or_eq_true, beq_iff_eq, bne_iff_ne]
  omega

/-- The last day of a leap year. -/
theorem last_day {a b c : Nat} (hb : b ≤ 3) (hc : c ≤ 24) (hleap : c ≠ 24 ∨ b = 3) :
    (Ymd.mk (a * 400 + 1 + b * 100 + c * 4 + 3) 12 31).Valid ∧
      (Ymd.mk (a * 400 + 1 + b * 100 + c * 4 + 3) 12 31).ordinal =
        a * 146097 + b * 36524 + c * 1461 + 3 * 365 + 366 := by
  have hyear := leapYear_cycles (a := a) hb hc (Nat.le_refl 3)
  have hl : (3 == 3 && (c != 24 || b == 3)) = true := by simpa using hleap
  rw [hl] at hyear
  have hvalid : (1 ≤ 12 ∧ 12 ≤ 12) ∧ 1 ≤ 31 ∧ 31 ≤ monthDays true 12 := by decide
  refine ⟨⟨?_, hvalid.1.1, hvalid.1.2, hvalid.2.1, ?_⟩, ?_⟩
  · dsimp only
    omega
  · dsimp only
    rw [hyear]
    exact hvalid.2.2
  · have hmonths : daysBeforeMonth true 12 = 335 := by decide
    unfold Ymd.ordinal
    rw [hyear, daysBeforeYear_cycles hb hc (Nat.le_refl 3), hmonths]
    dsimp only

/-- Another day of a year. -/
theorem year_day {a b c d r : Nat} (hb : b ≤ 3) (hc : c ≤ 24) (hd : d ≤ 3) (hr : r < 365) :
    let md := monthOfDay (d == 3 && (c != 24 || b == 3)) r
    (Ymd.mk (a * 400 + 1 + b * 100 + c * 4 + d) md.1 md.2).Valid ∧
      (Ymd.mk (a * 400 + 1 + b * 100 + c * 4 + d) md.1 md.2).ordinal =
        a * 146097 + b * 36524 + c * 1461 + d * 365 + r + 1 := by
  have hyear := leapYear_cycles (a := a) hb hc hd
  obtain ⟨⟨hm, hm', hd₁, hd₂⟩, hsum⟩ := monthOfDay_spec (d == 3 && (c != 24 || b == 3)) r
    (Nat.lt_of_lt_of_le hr (Nat.le_add_right _ _))
  refine ⟨⟨?_, hm, hm', hd₁, ?_⟩, ?_⟩
  · dsimp only
    omega
  · dsimp only
    rw [hyear]
    exact hd₂
  · unfold Ymd.ordinal
    rw [hyear, daysBeforeYear_cycles hb hc hd]
    dsimp only at hsum ⊢
    omega

/-- The date of a day exists, and falls on it. -/
theorem Ymd.ofOrdinal_spec {n : Nat} (h : 1 ≤ n) :
    (Ymd.ofOrdinal n).Valid ∧ (Ymd.ofOrdinal n).ordinal = n := by
  have h400 := Nat.div_add_mod (n - 1) 146097
  have h100 := Nat.div_add_mod ((n - 1) % 146097) 36524
  have h4 := Nat.div_add_mod ((n - 1) % 146097 % 36524) 1461
  have h1 := Nat.div_add_mod ((n - 1) % 146097 % 36524 % 1461) 365
  have hr := Nat.mod_lt (n - 1) (show 0 < 146097 by decide)
  have hr100 := Nat.mod_lt ((n - 1) % 146097) (show 0 < 36524 by decide)
  have hr4 := Nat.mod_lt ((n - 1) % 146097 % 36524) (show 0 < 1461 by decide)
  have hr1 := Nat.mod_lt ((n - 1) % 146097 % 36524 % 1461) (show 0 < 365 by decide)
  unfold Ymd.ofOrdinal
  dsimp only
  generalize (n - 1) / 146097 = a at *
  generalize (n - 1) % 146097 = r at *
  generalize r / 36524 = b at *
  generalize r % 36524 = r100 at *
  generalize r100 / 1461 = c at *
  generalize r100 % 1461 = r4 at *
  generalize r4 / 365 = d at *
  generalize r4 % 365 = r1 at *
  split
  · next hlast =>
    -- the day past the fourth year of a cycle of 4, or the fourth century of one of 400
    by_cases hcentury : b = 4
    · obtain ⟨hvalid, hord⟩ := last_day (a := a) (Nat.le_refl 3) (Nat.le_refl 24) (.inr rfl)
      have hyear : a * 400 + 1 + b * 100 + c * 4 + d - 1 = a * 400 + 1 + 3 * 100 + 24 * 4 + 3 := by
        omega
      rw [hyear]
      exact ⟨hvalid, by omega⟩
    · obtain ⟨hvalid, hord⟩ := last_day (a := a) (b := b) (c := c) (by omega) (by omega)
        (by omega)
      have hyear : a * 400 + 1 + b * 100 + c * 4 + d - 1 = a * 400 + 1 + b * 100 + c * 4 + 3 := by
        omega
      rw [hyear]
      exact ⟨hvalid, by omega⟩
  · next hlast =>
    rw [not_or] at hlast
    have hb : b ≤ 3 := by omega
    have hc : c ≤ 24 := by omega
    have hd : d ≤ 3 := by omega
    obtain ⟨hvalid, hord⟩ := year_day (a := a) hb hc hd hr1
    exact ⟨hvalid, by omega⟩

/-! ### The order of dates -/

/-- The order of dates: by the year, the month and the day. -/
def Ymd.Before (d d' : Ymd) : Prop :=
  d.year < d'.year ∨ d.year = d'.year ∧
    (d.month < d'.month ∨ d.month = d'.month ∧ d.day < d'.day)

theorem Ymd.Before.ordinal_lt {d d' : Ymd} (h : d.Before d') (hv : d.Valid) (hv' : d'.Valid) :
    d.ordinal < d'.ordinal := by
  obtain ⟨y, m, n⟩ := d
  obtain ⟨y', m', n'⟩ := d'
  obtain ⟨hy, hm, hm', hd, hd'⟩ := hv
  unfold Ymd.Before at h
  dsimp only at *
  rcases h with hyear | ⟨rfl, hmonth | ⟨rfl, hday⟩⟩
  · have hin := daysBeforeMonth_year (leapYear y) m hm' hm
    have hnext := daysBeforeYear_mono (by omega) (Nat.succ_le_of_lt hyear)
    rw [Nat.succ_eq_add_one, daysBeforeYear_succ hy] at hnext
    have := hv'.day_low
    simp only [Ymd.ordinal]
    dsimp only at *
    omega
  · have hover := daysBeforeMonth_lt (leapYear y) m' hv'.month_high m hmonth hm
    have := hv'.day_low
    simp only [Ymd.ordinal]
    dsimp only at *
    omega
  · simp only [Ymd.ordinal]
    omega

theorem Ymd.before_trichotomy (d d' : Ymd) : d.Before d' ∨ d = d' ∨ d'.Before d := by
  obtain ⟨y, m, n⟩ := d
  obtain ⟨y', m', n'⟩ := d'
  simp only [Ymd.Before, Ymd.mk.injEq]
  omega

end TaskScheduler.Lib
