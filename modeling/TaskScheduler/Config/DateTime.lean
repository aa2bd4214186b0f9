import TaskScheduler.Lib.Calendar
import TaskScheduler.Lib.Digits
import Mathlib.Algebra.Order.Ring.Int

/-! Python's aware datetimes: a reading of the wall clock with a timezone, the instant that it
names, and `isoformat`.  Readings and instants are in microseconds, from 1 January 1970. -/

namespace TaskScheduler

open Lib

def hourMicros : Int := 3600 * 1000000

def dayMicros : Int := 24 * hourMicros

/-- `date(1970, 1, 1).toordinal()`. -/
def epochOrdinal : Int := 719163

/-- The first midnight after the years that `datetime` has, 1 to 9999, as an ordinal. -/
def maxOrdinal : Int := 3652060

/-- A naive datetime. -/
@[ext]
structure Wall where
  micros : Int
  low : (1 - epochOrdinal) * dayMicros ≤ micros
  high : micros < (maxOrdinal - epochOrdinal) * dayMicros
  deriving DecidableEq

/-- The reading, unless it overflows. -/
def Wall.ofMicros (micros : Int) : Option Wall :=
  if h : (1 - epochOrdinal) * dayMicros ≤ micros ∧ micros < (maxOrdinal - epochOrdinal) * dayMicros
  then some ⟨micros, h.1, h.2⟩ else none

theorem Wall.ofMicros_eq_some {micros : Int} {w : Wall} :
    Wall.ofMicros micros = some w ↔ w.micros = micros := by
  unfold Wall.ofMicros
  constructor
  · intro h
    split at h <;> cases h
    rfl
  · rintro rfl
    rw [dif_pos ⟨w.low, w.high⟩]

/-- Whether UTC has a reading at the instant: `astimezone(UTC)` overflows outside the years 1 to
9999. -/
def inUtcYears (instant : Int) : Bool := (Wall.ofMicros instant).isSome

/-- `toordinal`. -/
def Wall.ordinal (w : Wall) : Nat := (w.micros / dayMicros + epochOrdinal).toNat

def Wall.date (w : Wall) : Ymd := .ofOrdinal w.ordinal

/-- The microseconds since midnight. -/
def Wall.sinceMidnight (w : Wall) : Nat := (w.micros % dayMicros).toNat

/-- `replace(minute=0, second=0, microsecond=0)`. -/
def Wall.hourStart (w : Wall) : Wall where
  micros := w.micros / hourMicros * hourMicros
  low := by
    have := w.low
    unfold dayMicros epochOrdinal hourMicros at *
    omega
  high := by
    have := w.high
    unfold maxOrdinal dayMicros epochOrdinal hourMicros at *
    omega

/-- A `tzinfo`: the offset from UTC of a reading, by its fold, and the reading at an instant, unless
it overflows. -/
structure TzInfo where
  utcoffset : Wall → Bool → Int
  fromutc : Int → Option (Wall × Bool)
  utcoffset_lt : ∀ wall fold, |utcoffset wall fold| < dayMicros
  instant_fromutc : ∀ t wall fold, fromutc t = some (wall, fold) →
    wall.micros - utcoffset wall fold = t

/-- `datetime.UTC`. -/
def TzInfo.utc : TzInfo where
  utcoffset _ _ := 0
  fromutc t := (Wall.ofMicros t).map fun wall => (wall, false)
  utcoffset_lt _ _ := by decide
  instant_fromutc t wall fold h := by
    obtain ⟨w, hw, heq⟩ := Option.map_eq_some_iff.mp h
    cases heq
    exact (Int.sub_zero _).trans (Wall.ofMicros_eq_some.mp hw)

/-- An aware datetime. -/
structure Aware where
  tz : TzInfo
  wall : Wall
  fold : Bool

namespace Aware

def utcoffset (a : Aware) : Int := a.tz.utcoffset a.wall a.fold

def instant (a : Aware) : Int := a.wall.micros - a.utcoffset

/-- `astimezone`. -/
def ofInstant (tz : TzInfo) (t : Int) : Option Aware :=
  (tz.fromutc t).map fun r => ⟨tz, r.1, r.2⟩

/-- `replace(minute=0, second=0, microsecond=0)`, which keeps the fold. -/
def hourStart (a : Aware) : Aware := { a with wall := a.wall.hourStart }

theorem instant_ofInstant {tz : TzInfo} {t : Int} {a : Aware} (h : ofInstant tz t = some a) :
    a.instant = t ∧ a.tz = tz := by
  obtain ⟨r, hr, rfl⟩ := Option.map_eq_some_iff.mp h
  exact ⟨tz.instant_fromutc t r.1 r.2 hr, rfl⟩

end Aware

/-! ### `isoformat` -/

def dateText (d : Ymd) : List Char :=
  pad 4 d.year ++ '-' :: (pad 2 d.month ++ '-' :: pad 2 d.day)

/-- The time of day; the microseconds are left out where they are zero. -/
def timeText (micros : Nat) : List Char :=
  let seconds := micros / 1000000
  pad 2 (seconds / 3600) ++ ':' :: (pad 2 (seconds / 60 % 60) ++ ':' :: (pad 2 (seconds % 60) ++
    if micros % 1000000 = 0 then [] else '.' :: pad 6 (micros % 1000000)))

/-- `_format_offset`: the seconds are left out where they are zero, too. -/
def offsetText (offset : Int) : List Char :=
  let micros := offset.natAbs
  let seconds := micros / 1000000
  (if offset < 0 then '-' else '+') :: (pad 2 (seconds / 3600) ++ ':' ::
    (pad 2 (seconds / 60 % 60) ++
      if micros % 60000000 = 0 then []
      else ':' :: (pad 2 (seconds % 60) ++
        if micros % 1000000 = 0 then [] else '.' :: pad 6 (micros % 1000000))))

def Aware.isoformat (a : Aware) : String :=
  String.ofList (dateText a.wall.date ++ 'T' :: (timeText a.wall.sinceMidnight ++
    offsetText a.utcoffset))

/-! ### The fields of a reading -/

theorem Wall.ordinal_eq (w : Wall) : (w.ordinal : Int) = w.micros / dayMicros + epochOrdinal := by
  have := w.low
  unfold Wall.ordinal
  unfold epochOrdinal dayMicros hourMicros at *
  omega

theorem Wall.date_spec (w : Wall) : w.date.Valid ∧ w.date.ordinal = w.ordinal := by
  refine Ymd.ofOrdinal_spec ?_
  have := w.low
  have := w.ordinal_eq
  unfold epochOrdinal dayMicros hourMicros at *
  omega

theorem Wall.year_le (w : Wall) : w.date.year < 10000 := by
  obtain ⟨hvalid, hord⟩ := w.date_spec
  by_contra hyear
  have hbefore := daysBeforeYear_mono (by decide : 1 ≤ 10000) (Nat.le_of_not_lt hyear)
  have hten : daysBeforeYear 10000 = 3652059 := by decide
  have := w.high
  have := w.ordinal_eq
  have := hvalid.day_low
  unfold Ymd.ordinal at hord
  unfold maxOrdinal epochOrdinal dayMicros hourMicros at *
  omega

/-- The fields of a date have the digits that they are printed with. -/
theorem Wall.date_lt (w : Wall) :
    w.date.year < 10 ^ 4 ∧ w.date.month < 10 ^ 2 ∧ w.date.day < 10 ^ 2 := by
  obtain ⟨hvalid, -⟩ := w.date_spec
  exact ⟨w.year_le, Nat.lt_of_le_of_lt hvalid.month_high (by decide),
    Nat.lt_of_le_of_lt (hvalid.day_high.trans (monthDays_le _ _)) (by decide)⟩

end TaskScheduler
