import TaskScheduler.Config.DateTime
import TaskScheduler.Domain.Jobs

/-! The partition key of a run, `time_bucket`: `_spawn_run` truncates `run_at` to the hour in the
timezone that it carries, which is UTC from most callers and the timezone of the job from
`next_after`. -/

namespace TaskScheduler

open Lib

/-! ### The runs that are created -/

/-- The `time_bucket` of `_spawn_run`. -/
def timeBucket (runAt : Aware) : String := runAt.hourStart.isoformat

/-- The ISO text of the hour of an instant in UTC, unless `datetime` does not reach it. -/
def utcBucket (t : Int) : Option String := (Aware.ofInstant .utc t).map timeBucket

/-- A run with the argument of `_spawn_run`, whose column keeps the instant only, and its bucket. -/
structure SpawnedRun where
  runAt : Aware
  run : JobRun
  timeBucket : String

/-- The row of `_spawn_run`. -/
def spawnedRun (job : Job) (runAt : Aware) (waitForRunId : Option Nat) : SpawnedRun where
  runAt := runAt
  run := JobRun.new job runAt.instant .pending waitForRunId
  timeBucket := timeBucket runAt

/-- The timezone of the `run_at` of `create_job`: that of `next_after`, or UTC. -/
def CreatePlan.tzInfo (zones : String → TzInfo) (plan : CreatePlan) : TzInfo :=
  if plan.cronExpr.isSome then zones plan.timezone else .utc

/-- The runs that `create_job` and the continuation consumer create; `zones` is the timezone
database. -/
inductive Created (libs : Libs) (zones : String → TzInfo) : SpawnedRun → Prop
  /-- `materialize_initial`. -/
  | initial {now : Int} {args : CreateArgs} {plan : CreatePlan} {runAt : Aware} (jobId : Nat)
    (hplan : planCreate libs now args = .ok plan) (hroot : args.triggerOnJobId = none)
    (hat : Aware.ofInstant (plan.tzInfo zones) plan.runAt = some runAt) :
    Created libs zones (spawnedRun { Job.new args plan with jobId := jobId } runAt none)
  /-- `materialize_successor`. -/
  | successor {job : Job} {cronExpr tz : String} {prevRun : JobRun} {occurredAt t : Int}
    {runAt : Aware} (hcron : job.cronExpr = some cronExpr)
    (htz : tz = if job.timezone = "" then "UTC" else job.timezone) (hzone : libs.zoneInfo tz = true)
    (hnext : nextAfter libs cronExpr tz (successorAnchor prevRun occurredAt) = some t)
    (hat : Aware.ofInstant (zones tz) t = some runAt) :
    Created libs zones (spawnedRun job runAt none)
  /-- `materialize_downstream`. -/
  | downstream {job : Job} {occurredAt : Int} {runAt : Aware} (upstreamRunId : Nat)
    (hat : Aware.ofInstant .utc occurredAt = some runAt) :
    Created libs zones (spawnedRun job runAt (some upstreamRunId))

/-- The hour that the reading is in is that of the instant, and begins at the offset of UTC. -/
def Aware.OnUtcHour (a : Aware) : Prop :=
  a.wall.micros / hourMicros = a.instant / hourMicros ∧ a.hourStart.utcoffset = 0

/-! ### The text of a bucket -/

/-- The date and the hour. -/
def hourText (w : Wall) : List Char :=
  dateText w.date ++ 'T' :: pad 2 (w.sinceMidnight / 3600000000)

@[simp] theorem length_dateText (d : Ymd) : (dateText d).length = 10 := by
  simp [dateText]

@[simp] theorem length_hourText (w : Wall) : (hourText w).length = 13 := by
  simp [hourText]

theorem Wall.hourStart_div (w : Wall) :
    w.hourStart.micros / hourMicros = w.micros / hourMicros := by
  simp only [Wall.hourStart, hourMicros]
  omega

/-- The time of day of a full hour. -/
theorem timeText_hour {micros : Nat} (h : micros % 3600000000 = 0) :
    timeText micros = pad 2 (micros / 3600000000) ++ ":00:00".toList := by
  have hhour : micros / 1000000 / 3600 = micros / 3600000000 := by omega
  have hminute : micros / 1000000 / 60 % 60 = 0 := by omega
  have hsecond : micros / 1000000 % 60 = 0 := by omega
  have hmicro : micros % 1000000 = 0 := by omega
  unfold timeText
  dsimp only
  rw [hhour, hminute, hsecond, if_pos hmicro]
  rfl

theorem timeBucket_eq (a : Aware) :
    timeBucket a = String.ofList (hourText a.wall.hourStart ++ (":00:00".toList ++
      offsetText a.hourStart.utcoffset)) := by
  have hfull : a.wall.hourStart.sinceMidnight % 3600000000 = 0 := by
    simp only [Wall.sinceMidnight, Wall.hourStart, dayMicros, hourMicros]
    omega
  unfold timeBucket Aware.isoformat hourText
  change String.ofList (dateText a.wall.hourStart.date ++ 'T' ::
    (timeText a.wall.hourStart.sinceMidnight ++ offsetText a.hourStart.utcoffset)) = _
  rw [timeText_hour hfull]
  simp only [List.append_assoc, List.cons_append]

/-- Texts of dates are in the order of the dates. -/
theorem dateText_lt_iff (w w' : Wall) :
    dateText w.date < dateText w'.date ↔ w.date.Before w'.date := by
  obtain ⟨hy, hm, hd⟩ := w.date_lt
  obtain ⟨hy', hm', hd'⟩ := w'.date_lt
  unfold dateText Ymd.Before
  rw [append_lt_append_iff (by simp), pad_lt_iff hy hy', pad_inj hy hy', List.cons_lt_cons_iff,
    append_lt_append_iff (by simp), pad_lt_iff hm hm', pad_inj hm hm', List.cons_lt_cons_iff,
    pad_lt_iff hd hd']
  simp

theorem Wall.hour_lt (w : Wall) : w.sinceMidnight / 3600000000 < 24 := by
  unfold Wall.sinceMidnight dayMicros hourMicros
  omega

/-- The hours since 1970, from the day and the hour of the day. -/
theorem Wall.div_hour (w : Wall) :
    w.micros / hourMicros =
      (w.ordinal - epochOrdinal) * 24 + (w.sinceMidnight / 3600000000 : Nat) := by
  rw [w.ordinal_eq]
  unfold Wall.sinceMidnight dayMicros hourMicros
  omega

/-- The texts are in the order of the hours. -/
theorem hourText_lt_iff (w w' : Wall) :
    hourText w < hourText w' ↔ w.micros / hourMicros < w'.micros / hourMicros := by
  obtain ⟨hv, hord⟩ := w.date_spec
  obtain ⟨hv', hord'⟩ := w'.date_spec
  have hh := w.hour_lt
  have hh' := w'.hour_lt
  unfold hourText
  rw [append_lt_append_iff (by simp), dateText_lt_iff, List.cons_lt_cons_iff,
    pad_lt_iff (hh.trans (by decide)) (hh'.trans (by decide)), w.div_hour, w'.div_hour]
  rcases w.date.before_trichotomy w'.date with hbefore | heq | hafter
  · have hlt := hbefore.ordinal_lt hv hv'
    refine ⟨fun _ => ?_, fun _ => .inl hbefore⟩
    omega
  · have hsame : w.ordinal = w'.ordinal := by rw [← hord, ← hord', heq]
    have hirrefl : ¬w'.date.Before w'.date := fun hb => Nat.lt_irrefl _ (hb.ordinal_lt hv' hv')
    simp only [heq, hirrefl, false_or, true_and, Char.lt_irrefl]
    omega
  · have hlt := hafter.ordinal_lt hv' hv
    constructor
    · rintro (hbefore | ⟨heq, -⟩)
      · have := hbefore.ordinal_lt hv hv'
        omega
      · have : ¬dateText w'.date < dateText w.date := by
          rw [heq]
          exact List.lt_irrefl _
        exact absurd ((dateText_lt_iff w' w).mpr hafter) this
    · intro hle
      omega

theorem hourText_inj (w w' : Wall) :
    hourText w = hourText w' ↔ w.micros / hourMicros = w'.micros / hourMicros := by
  constructor
  · intro h
    have hnot : ¬hourText w < hourText w' := by
      rw [h]
      exact List.lt_irrefl _
    have hnot' : ¬hourText w' < hourText w := by
      rw [h]
      exact List.lt_irrefl _
    rw [hourText_lt_iff] at hnot hnot'
    omega
  · intro h
    rw [w.div_hour, w'.div_hour] at h
    have hh := w.hour_lt
    have hh' := w'.hour_lt
    have hord : w.ordinal = w'.ordinal := by omega
    have hhour : w.sinceMidnight / 3600000000 = w'.sinceMidnight / 3600000000 := by omega
    unfold hourText Wall.date
    rw [hord, hhour]

/-- Only the offset zero is printed as that of UTC. -/
theorem offsetText_zero {offset : Int} (h : |offset| < dayMicros) :
    offsetText offset = offsetText 0 ↔ offset = 0 := by
  refine ⟨fun htext => ?_, fun h => by rw [h]⟩
  have hday : offset.natAbs < 86400000000 := by
    rw [abs_lt] at h
    unfold dayMicros hourMicros at h
    omega
  have hhour : offset.natAbs / 1000000 / 3600 < 10 ^ 2 := by omega
  have hminute : offset.natAbs / 1000000 / 60 % 60 < 10 ^ 2 := by omega
  have hzero : offsetText 0 = '+' :: (pad 2 0 ++ ':' :: (pad 2 0 ++ [])) := rfl
  rw [hzero] at htext
  unfold offsetText at htext
  dsimp only at htext
  rw [List.cons.injEq, append_eq_append_iff (by simp), pad_inj hhour (by decide), List.cons.injEq,
    append_eq_append_iff (by simp), pad_inj hminute (by decide)] at htext
  obtain ⟨-, hhours, -, hminutes, hrest⟩ := htext
  have hfull : offset.natAbs % 60000000 = 0 := by
    by_contra hne
    rw [if_neg hne] at hrest
    cases hrest
  omega

/-! ### The partition key -/

/-- A bucket is the canonical one exactly where its hour is that of UTC. -/
theorem timeBucket_utc {a : Aware} {u : Wall} (hu : u.micros = a.instant) :
    timeBucket a = timeBucket ⟨.utc, u, false⟩ ↔ a.OnUtcHour := by
  have hutc : (Aware.hourStart ⟨.utc, u, false⟩).utcoffset = 0 := rfl
  have hlt : |a.hourStart.utcoffset| < dayMicros := a.tz.utcoffset_lt _ _
  rw [timeBucket_eq, timeBucket_eq, String.ofList_inj, append_eq_append_iff (by simp),
    append_eq_append_iff rfl, hutc, offsetText_zero hlt, hourText_inj, Wall.hourStart_div,
    Wall.hourStart_div, hu]
  unfold Aware.OnUtcHour
  simp

theorem ofInstant_utc {t : Int} {a : Aware} :
    Aware.ofInstant .utc t = some a ↔ ∃ u : Wall, u.micros = t ∧ a = ⟨.utc, u, false⟩ := by
  simp only [Aware.ofInstant, TzInfo.utc, Option.map_map, Option.map_eq_some_iff,
    Wall.ofMicros_eq_some]
  exact exists_congr fun u => and_congr_right fun _ => eq_comm

theorem utcBucket_iff {t : Int} {bucket : String} :
    utcBucket t = some bucket ↔
      ∃ u : Wall, u.micros = t ∧ bucket = timeBucket ⟨.utc, u, false⟩ := by
  unfold utcBucket
  rw [Option.map_eq_some_iff]
  constructor
  · rintro ⟨a, ha, rfl⟩
    obtain ⟨u, hu, rfl⟩ := ofInstant_utc.mp ha
    exact ⟨u, hu, rfl⟩
  · rintro ⟨u, hu, rfl⟩
    exact ⟨_, ofInstant_utc.mpr ⟨u, hu, rfl⟩, rfl⟩

namespace Aware

/-- In UTC a reading is on its hour. -/
theorem onUtcHour_utc {t : Int} {a : Aware} (h : ofInstant .utc t = some a) : a.OnUtcHour := by
  obtain ⟨u, -, rfl⟩ := ofInstant_utc.mp h
  refine ⟨?_, rfl⟩
  unfold instant
  exact congrArg (· / hourMicros) (Int.sub_zero _).symm

/-- Where the offset does not change within the hour, it has to be that of UTC. -/
theorem onUtcHour_iff_offset {a : Aware} (h : a.hourStart.utcoffset = a.utcoffset) :
    a.OnUtcHour ↔ a.utcoffset = 0 := by
  unfold OnUtcHour instant
  rw [h]
  constructor
  · exact fun hmet => hmet.2
  · intro hzero
    rw [hzero, Int.sub_zero]
    exact ⟨rfl, rfl⟩

/-- `datetime` reaches the instant in UTC, since it reaches the hour. -/
theorem OnUtcHour.utc {a : Aware} (h : a.OnUtcHour) : ∃ u : Wall, u.micros = a.instant := by
  have hlow := a.wall.low
  have hhigh := a.wall.high
  have hhour := h.1
  refine ⟨⟨a.instant, ?_, ?_⟩, rfl⟩ <;>
    unfold maxOrdinal epochOrdinal dayMicros hourMicros at * <;> omega

end Aware

/-- The order of canonical buckets is that of the hours. -/
theorem timeBucket_lt_iff (u u' : Wall) :
    timeBucket ⟨.utc, u, false⟩ < timeBucket ⟨.utc, u', false⟩ ↔
      u.micros / hourMicros < u'.micros / hourMicros := by
  rw [timeBucket_eq, timeBucket_eq, ofList_lt_iff, append_lt_append_iff (by simp), hourText_lt_iff,
    Wall.hourStart_div, Wall.hourStart_div]
  have hsuffix : ¬(":00:00".toList ++ offsetText 0 < ":00:00".toList ++ offsetText 0) :=
    List.lt_irrefl _
  constructor
  · rintro (h | ⟨-, h⟩)
    · exact h
    · exact absurd h hsuffix
  · exact .inl

/-- What the buckets of two runs are owed: one instant has one bucket, and a later bucket a later
instant. -/
structure SpawnedRun.Ordered (r r' : SpawnedRun) : Prop where
  same : r.run.scheduledAt = r'.run.scheduledAt → r.timeBucket = r'.timeBucket
  later : r.timeBucket < r'.timeBucket → r.run.scheduledAt < r'.run.scheduledAt

theorem ordered_of_canonical {r r' : SpawnedRun}
    (h : utcBucket r.run.scheduledAt = some r.timeBucket)
    (h' : utcBucket r'.run.scheduledAt = some r'.timeBucket) : r.Ordered r' := by
  refine ⟨fun hsame => ?_, fun hlater => ?_⟩
  · rw [hsame, h'] at h
    exact (Option.some.inj h).symm
  · obtain ⟨u, hu, hb⟩ := utcBucket_iff.mp h
    obtain ⟨u', hu', hb'⟩ := utcBucket_iff.mp h'
    rw [hb, hb', timeBucket_lt_iff, hu, hu'] at hlater
    unfold hourMicros at hlater
    omega

variable {libs : Libs} {zones : String → TzInfo}

/-- The columns of a created run are those of its `run_at`. -/
theorem Created.columns {r : SpawnedRun} (h : Created libs zones r) :
    r.run.scheduledAt = r.runAt.instant ∧ r.timeBucket = TaskScheduler.timeBucket r.runAt := by
  cases h <;> exact ⟨rfl, rfl⟩

/-- The bucket of a created run is the hour of its instant in UTC exactly where its `run_at` is on
the hour of UTC, and runs of which this holds are ordered by their buckets. -/
theorem bucket_canonical_iff (libs : Libs) (zones : String → TzInfo) (r : SpawnedRun)
    (h : Created libs zones r) :
    (utcBucket r.run.scheduledAt = some r.timeBucket ↔ r.runAt.OnUtcHour) ∧
      (r.runAt.OnUtcHour → ∀ r', Created libs zones r' → r'.runAt.OnUtcHour → r.Ordered r') := by
  have hiff : ∀ r, Created libs zones r →
      (utcBucket r.run.scheduledAt = some r.timeBucket ↔ r.runAt.OnUtcHour) := by
    intro r hr
    obtain ⟨hinstant, hbucket⟩ := hr.columns
    rw [hinstant, hbucket, utcBucket_iff]
    constructor
    · rintro ⟨u, hu, heq⟩
      exact (timeBucket_utc hu).mp heq
    · intro hon
      obtain ⟨u, hu⟩ := hon.utc
      exact ⟨u, hu, (timeBucket_utc hu).mpr hon⟩
  exact ⟨hiff r h, fun hon r' hr' hon' =>
    ordered_of_canonical ((hiff r h).mpr hon) ((hiff r' hr').mpr hon')⟩

/-! ### Half past two -/

/-- A timezone with one offset. -/
def TzInfo.fixed (offset : Int) (h : |offset| < dayMicros) : TzInfo where
  utcoffset _ _ := offset
  fromutc t := (Wall.ofMicros (t + offset)).map fun wall => (wall, false)
  utcoffset_lt _ _ := h
  instant_fromutc t wall fold h := by
    obtain ⟨w, hw, heq⟩ := Option.map_eq_some_iff.mp h
    cases heq
    rw [Wall.ofMicros_eq_some.mp hw]
    exact Int.add_sub_cancel t offset

/-- The second day of 1970, 02:30 in UTC. -/
def halfPastTwo : Int := 26 * hourMicros + 1800 * 1000000

/-- A schedule that fires at half past two, and a clock string that means it. -/
def halfPastLibs : Libs where
  zoneInfo _ := true
  isValid _ := true
  getNext _ _ _ := some halfPastTwo
  fromIsoFormat _ _ := some halfPastTwo

/-- Asia/Kolkata, whatever the key. -/
def kolkata : String → TzInfo := fun _ => .fixed (5 * hourMicros + 1800 * 1000000) (by decide)

def eightInKolkata : CreateArgs where
  userId := "ann"
  action := "echo"
  scheduleType := "recurring"
  idempotencyKey := none
  scheduledAt := none
  timezone := some "Asia/Kolkata"
  cronExpr := some "0 8 * * *"
  tzHeader := none
  tzEnv := none
  triggerOnJobId := none
  triggerOnStatus := none
  operatorUserId := none

def onceAtHalfPast : CreateArgs :=
  { eightInKolkata with
    scheduleType := "one-shot", scheduledAt := some "1970-01-02T02:30:00+00:00", cronExpr := none }

def eightPlan : CreatePlan := ⟨halfPastTwo, "Asia/Kolkata", some "0 8 * * *", none⟩

def oncePlan : CreatePlan := ⟨halfPastTwo, "Asia/Kolkata", none, none⟩

def eightRun : SpawnedRun :=
  spawnedRun { Job.new eightInKolkata eightPlan with jobId := 1 }
    ⟨kolkata "Asia/Kolkata", ⟨halfPastTwo + 19800 * 1000000, by decide, by decide⟩, false⟩ none

def onceRun : SpawnedRun :=
  spawnedRun { Job.new onceAtHalfPast oncePlan with jobId := 2 }
    ⟨.utc, ⟨halfPastTwo, by decide, by decide⟩, false⟩ none

theorem eight_created : Created halfPastLibs kolkata eightRun :=
  .initial 1 (rfl : planCreate halfPastLibs 0 eightInKolkata = .ok eightPlan) rfl rfl

theorem once_created : Created halfPastLibs kolkata onceRun :=
  .initial 2 (rfl : planCreate halfPastLibs 0 onceAtHalfPast = .ok oncePlan) rfl rfl

theorem once_canonical : utcBucket onceRun.run.scheduledAt = some onceRun.timeBucket :=
  (bucket_canonical_iff halfPastLibs kolkata onceRun once_created).1.mpr ⟨by decide, rfl⟩

/-- The two runs are scheduled at one instant and have two buckets, the later of which is the one in
the timezone of the job. -/
theorem eight_not_canonical : Created halfPastLibs kolkata eightRun ∧
    Created halfPastLibs kolkata onceRun ∧
    eightRun.run.scheduledAt = onceRun.run.scheduledAt ∧
    eightRun.timeBucket = "1970-01-02T08:00:00+05:30" ∧
    onceRun.timeBucket = "1970-01-02T02:00:00+00:00" ∧
    utcBucket eightRun.run.scheduledAt ≠ some eightRun.timeBucket ∧
    ¬onceRun.Ordered eightRun := by
  have hbucket : eightRun.timeBucket = "1970-01-02T08:00:00+05:30" := by decide +kernel
  have honce : onceRun.timeBucket = "1970-01-02T02:00:00+00:00" := by decide +kernel
  have hutc : utcBucket eightRun.run.scheduledAt = some "1970-01-02T02:00:00+00:00" := by
    decide +kernel
  refine ⟨eight_created, once_created, rfl, hbucket, honce, ?_, fun h => ?_⟩
  · rw [hutc, hbucket]
    decide
  · have := h.same rfl
    rw [honce, hbucket] at this
    exact absurd this (by decide)

end TaskScheduler
