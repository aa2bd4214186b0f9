import Mathlib.Data.List.Basic
import TaskScheduler.Db.Models

/-! The two windows of `app/ratelimit/checker.py`: when a creation is rejected, when the check
raises instead, and when the wait that a rejection names is long enough. -/

namespace TaskScheduler.Ratelimit

structure RateLimits where
  daily : Nat
  burst : Nat
  deriving DecidableEq, Repr

inductive RateLimitDecision
  | allow
  | reject (reason : String) (retryAfterSeconds : Int)
  deriving DecidableEq, Repr

/-- An exception of Python. -/
inductive PyError
  | typeError (message : String)
  deriving DecidableEq, Repr

/-- One second, minute and day, in microseconds. -/
def second : Int := 1000000

def minute : Int := 60 * second

def day : Int := 24 * 60 * minute

/-- `Job.created_at` of the jobs of a user. -/
def createdAts (jobs : List Job) (userId : String) : List Int :=
  (jobs.filter fun j => j.userId == userId).map (·.createdAt)

/-- The rows that a window counts: those created after its start. -/
def inWindow (created : List Int) (start : Int) : List Int :=
  created.filter fun t => decide (start < t)

/-- `math.ceil` of a duration in seconds. -/
def ceilSeconds (duration : Int) : Int := -(-duration / second)

/-- One window of `check_rate_limit`: the count and the oldest row, and `rest` below the limit.  The
oldest row of an empty window is `None`. -/
def checkWindow (created : List Int) (now window : Int) (limit : Nat) (reason : String)
    (rest : Except PyError RateLimitDecision) : Except PyError RateLimitDecision :=
  let rows := inWindow created (now - window)
  if rows.length ≥ limit then
    match rows.min? with
    | none =>
      .error (.typeError "unsupported operand type(s) for +: 'NoneType' and 'datetime.timedelta'")
    | some oldest => .ok (.reject reason (max 1 (ceilSeconds (oldest + window - now))))
  else rest

/-- `check_rate_limit`. -/
def checkRateLimit (userId : String) (jobs : List Job) (limits : RateLimits) (now : Int) :
    Except PyError RateLimitDecision :=
  let created := createdAts jobs userId
  checkWindow created now minute limits.burst "burst"
    (checkWindow created now day limits.daily "daily" (.ok .allow))

/-! ### One window -/

section Window

variable {created : List Int} {now window : Int} {limit : Nat} {reason : String}
  {rest : Except PyError RateLimitDecision}

theorem lt_ceilSeconds {k d : Int} : k < ceilSeconds d ↔ k * second < d := by
  unfold ceilSeconds second
  omega

theorem ceilSeconds_pos {d : Int} : 0 < ceilSeconds d ↔ 0 < d := by
  rw [lt_ceilSeconds, Int.zero_mul]

/-- The second of a window in which a job was created, counted from the start of the window. -/
def secondOf (start t : Int) : Int := ceilSeconds (t - start)

/-- Fewer than `limit` jobs of the window were created in a later second of it than the oldest
one. -/
def Drains (created : List Int) (start : Int) (limit : Nat) : Prop :=
  ∀ oldest ∈ inWindow created start, (∀ t ∈ inWindow created start, oldest ≤ t) →
    (inWindow created start).countP (fun t => decide (secondOf start oldest < secondOf start t)) <
      limit

theorem mem_inWindow {start t : Int} : t ∈ inWindow created start ↔ t ∈ created ∧ start < t := by
  simp [inWindow]

theorem inWindow_length_le {start start' : Int} (h : start ≤ start') :
    (inWindow created start').length ≤ (inWindow created start).length := by
  unfold inWindow
  rw [← List.countP_eq_length_filter, ← List.countP_eq_length_filter]
  refine List.countP_mono_left fun t _ ht => ?_
  simp only [decide_eq_true_eq] at ht ⊢
  omega

theorem checkWindow_of_lt (h : (inWindow created (now - window)).length < limit) :
    checkWindow created now window limit reason rest = rest := by
  unfold checkWindow
  rw [if_neg (Nat.not_le.mpr h)]

theorem checkWindow_raises (h : inWindow created (now - window) = []) :
    ∃ e, checkWindow created now window 0 reason rest = .error e := by
  unfold checkWindow
  rw [if_pos (Nat.zero_le _), h]
  exact ⟨_, rfl⟩

/-- A rejection waits for the second in which the oldest job of the window was created. -/
theorem checkWindow_rejects (hle : limit ≤ (inWindow created (now - window)).length)
    (hne : inWindow created (now - window) ≠ []) :
    ∃ oldest ∈ inWindow created (now - window),
      (∀ t ∈ inWindow created (now - window), oldest ≤ t) ∧
      checkWindow created now window limit reason rest =
        .ok (.reject reason (secondOf (now - window) oldest)) := by
  cases hmin : (inWindow created (now - window)).min? with
  | none => exact absurd (List.min?_eq_none_iff.mp hmin) hne
  | some oldest =>
    obtain ⟨hmem, hleast⟩ := List.min?_eq_some_iff.mp hmin
    refine ⟨oldest, hmem, hleast, ?_⟩
    have hpos : 0 < secondOf (now - window) oldest := by
      rw [secondOf, ceilSeconds_pos]
      have := (mem_inWindow.mp hmem).2
      omega
    have hsecond : ceilSeconds (oldest + window - now) = secondOf (now - window) oldest := by
      rw [secondOf]
      congr 1
      omega
    unfold checkWindow
    simp only [hmin]
    rw [if_pos hle, hsecond, Int.max_eq_right (by omega)]

/-- What is left in the window after the wait: the jobs of the later seconds. -/
theorem inWindow_after {start oldest : Int} (h : start < oldest) :
    (inWindow created (start + secondOf start oldest * second)).length =
      (inWindow created start).countP
        (fun t => decide (secondOf start oldest < secondOf start t)) := by
  have hpos : 0 < secondOf start oldest := by
    rw [secondOf, ceilSeconds_pos]
    omega
  unfold inWindow
  rw [← List.countP_eq_length_filter, List.countP_filter]
  refine List.countP_congr fun t _ => ?_
  simp only [Bool.and_eq_true, decide_eq_true_eq]
  have hlt : secondOf start oldest < secondOf start t ↔
      secondOf start oldest * second < t - start := lt_ceilSeconds
  rw [hlt]
  unfold second
  omega

end Window

/-! ### Both windows -/

/-- The limit of a window. -/
def RateLimits.of (limits : RateLimits) (reason : String) : Nat :=
  if reason = "burst" then limits.burst else limits.daily

/-- The number of jobs that a user has created since an instant. -/
def createdSince (jobs : List Job) (userId : String) (start : Int) : Nat :=
  jobs.countP fun j => j.userId == userId && decide (start < j.createdAt)

/-- A rejection tells the truth: the check does not raise, it rejects just when a limit is reached,
and a user that waits as told and creates nothing is not rejected for the same window again. -/
structure Truthful (userId : String) (jobs : List Job) (limits : RateLimits) (now : Int) :
    Prop where
  returns : ∃ d, checkRateLimit userId jobs limits now = .ok d
  rejects : (∃ reason retry, checkRateLimit userId jobs limits now = .ok (.reject reason retry)) ↔
    limits.burst ≤ createdSince jobs userId (now - minute) ∨
      limits.daily ≤ createdSince jobs userId (now - day)
  waits : ∀ reason retry, checkRateLimit userId jobs limits now = .ok (.reject reason retry) →
    1 ≤ limits.of reason → ∀ jobs' later, createdAts jobs' userId = createdAts jobs userId →
    now + retry * second ≤ later →
    ∀ retry', checkRateLimit userId jobs' limits later ≠ .ok (.reject reason retry')

/-- The history that a check finds at `now`: no limit of zero meets an empty window, and the window
that rejects drains in the second of its oldest job. -/
structure Regular (userId : String) (jobs : List Job) (limits : RateLimits) (now : Int) :
    Prop where
  burst : limits.burst = 0 → 0 < createdSince jobs userId (now - minute)
  daily : limits.daily = 0 → createdSince jobs userId (now - minute) < limits.burst →
    0 < createdSince jobs userId (now - day)
  burstDrains : 1 ≤ limits.burst → limits.burst ≤ createdSince jobs userId (now - minute) →
    Drains (createdAts jobs userId) (now - minute) limits.burst
  dailyDrains : createdSince jobs userId (now - minute) < limits.burst → 1 ≤ limits.daily →
    limits.daily ≤ createdSince jobs userId (now - day) →
    Drains (createdAts jobs userId) (now - day) limits.daily

section Both

variable {userId : String} {jobs jobs' : List Job} {limits : RateLimits} {now : Int}

theorem createdSince_eq (start : Int) :
    createdSince jobs userId start = (inWindow (createdAts jobs userId) start).length := by
  unfold createdSince createdAts inWindow
  rw [← List.countP_eq_length_filter, List.countP_map, List.countP_filter]
  refine List.countP_congr fun j _ => ?_
  simp [Bool.and_comm]

theorem checkRateLimit_congr (h : createdAts jobs' userId = createdAts jobs userId) (later : Int) :
    checkRateLimit userId jobs' limits later = checkRateLimit userId jobs limits later := by
  unfold checkRateLimit
  rw [h]

/-- What the check does, by the counts of its two windows. -/
theorem checkRateLimit_cases (userId : String) (jobs : List Job) (limits : RateLimits) (now : Int) :
    (limits.burst = 0 ∧ createdSince jobs userId (now - minute) = 0 ∧
      ∃ e, checkRateLimit userId jobs limits now = .error e) ∨
    (limits.burst ≤ createdSince jobs userId (now - minute) ∧
      ∃ oldest ∈ inWindow (createdAts jobs userId) (now - minute),
        (∀ t ∈ inWindow (createdAts jobs userId) (now - minute), oldest ≤ t) ∧
        checkRateLimit userId jobs limits now =
          .ok (.reject "burst" (secondOf (now - minute) oldest))) ∨
    (createdSince jobs userId (now - minute) < limits.burst ∧
      ((limits.daily = 0 ∧ createdSince jobs userId (now - day) = 0 ∧
        ∃ e, checkRateLimit userId jobs limits now = .error e) ∨
      (limits.daily ≤ createdSince jobs userId (now - day) ∧
        ∃ oldest ∈ inWindow (createdAts jobs userId) (now - day),
          (∀ t ∈ inWindow (createdAts jobs userId) (now - day), oldest ≤ t) ∧
          checkRateLimit userId jobs limits now =
            .ok (.reject "daily" (secondOf (now - day) oldest))) ∨
      (createdSince jobs userId (now - day) < limits.daily ∧
        checkRateLimit userId jobs limits now = .ok .allow))) := by
  simp only [createdSince_eq]
  unfold checkRateLimit
  by_cases hburst : (inWindow (createdAts jobs userId) (now - minute)).length < limits.burst
  · refine .inr (.inr ⟨hburst, ?_⟩)
    simp only [checkWindow_of_lt hburst]
    by_cases hdaily : (inWindow (createdAts jobs userId) (now - day)).length < limits.daily
    · exact .inr (.inr ⟨hdaily, checkWindow_of_lt hdaily⟩)
    · by_cases hnil : inWindow (createdAts jobs userId) (now - day) = []
      · have hzero : limits.daily = 0 := by
          rw [hnil] at hdaily
          simpa using hdaily
        refine .inl ⟨hzero, by rw [hnil]; rfl, ?_⟩
        rw [hzero]
        exact checkWindow_raises hnil
      · exact .inr (.inl ⟨Nat.not_lt.mp hdaily, checkWindow_rejects (Nat.not_lt.mp hdaily) hnil⟩)
  · by_cases hnil : inWindow (createdAts jobs userId) (now - minute) = []
    · have hzero : limits.burst = 0 := by
        rw [hnil] at hburst
        simpa using hburst
      refine .inl ⟨hzero, by rw [hnil]; rfl, ?_⟩
      rw [hzero]
      exact checkWindow_raises hnil
    · exact .inr (.inl ⟨Nat.not_lt.mp hburst, checkWindow_rejects (Nat.not_lt.mp hburst) hnil⟩)

/-- A job that a window counts is in it. -/
theorem createdSince_pos {start t : Int} (h : t ∈ inWindow (createdAts jobs userId) start) :
    0 < createdSince jobs userId start := by
  rw [createdSince_eq]
  exact List.length_pos_of_mem h

theorem createdSince_anti (jobs : List Job) (userId : String) {start start' : Int}
    (h : start ≤ start') :
    createdSince jobs userId start' ≤ createdSince jobs userId start := by
  rw [createdSince_eq, createdSince_eq]
  exact inWindow_length_le h

/-- After the wait that a window names, it counts the jobs of the seconds after its oldest one. -/
theorem createdSince_after {window oldest : Int}
    (h : oldest ∈ inWindow (createdAts jobs userId) (now - window)) :
    createdSince jobs userId (now + secondOf (now - window) oldest * second - window) =
      (inWindow (createdAts jobs userId) (now - window)).countP
        (fun t => decide (secondOf (now - window) oldest < secondOf (now - window) t)) := by
  rw [createdSince_eq, ← inWindow_after (mem_inWindow.mp h).2]
  congr 2
  omega

theorem secondOf_pos {window oldest : Int}
    (h : oldest ∈ inWindow (createdAts jobs userId) (now - window)) :
    0 < secondOf (now - window) oldest := by
  rw [secondOf, ceilSeconds_pos]
  have := (mem_inWindow.mp h).2
  omega

/-- A rejection for the minute names the second of its oldest job. -/
theorem of_rejects_burst {retry : Int}
    (h : checkRateLimit userId jobs limits now = .ok (.reject "burst" retry)) :
    limits.burst ≤ createdSince jobs userId (now - minute) ∧
      ∃ oldest ∈ inWindow (createdAts jobs userId) (now - minute),
        (∀ t ∈ inWindow (createdAts jobs userId) (now - minute), oldest ≤ t) ∧
        retry = secondOf (now - minute) oldest := by
  obtain ⟨-, -, e, he⟩ | ⟨hle, oldest, hmem, hleast, hd⟩ |
      ⟨-, ⟨-, -, e, he⟩ | ⟨-, oldest, -, -, hd⟩ | ⟨-, hd⟩⟩ :=
    checkRateLimit_cases userId jobs limits now
  · simp [he] at h
  · refine ⟨hle, oldest, hmem, hleast, ?_⟩
    simpa [hd] using h.symm
  · simp [he] at h
  · simp [hd] at h
  · simp [hd] at h

/-- A rejection for the day names the second of its oldest job. -/
theorem of_rejects_daily {retry : Int}
    (h : checkRateLimit userId jobs limits now = .ok (.reject "daily" retry)) :
    createdSince jobs userId (now - minute) < limits.burst ∧
      limits.daily ≤ createdSince jobs userId (now - day) ∧
      ∃ oldest ∈ inWindow (createdAts jobs userId) (now - day),
        (∀ t ∈ inWindow (createdAts jobs userId) (now - day), oldest ≤ t) ∧
        retry = secondOf (now - day) oldest := by
  obtain ⟨-, -, e, he⟩ | ⟨-, oldest, -, -, hd⟩ |
      ⟨hlt, ⟨-, -, e, he⟩ | ⟨hle, oldest, hmem, hleast, hd⟩ | ⟨-, hd⟩⟩ :=
    checkRateLimit_cases userId jobs limits now
  · simp [he] at h
  · simp [hd] at h
  · simp [he] at h
  · refine ⟨hlt, hle, oldest, hmem, hleast, ?_⟩
    simpa [hd] using h.symm
  · simp [hd] at h

theorem rejects_burst (limits : RateLimits)
    (hle : limits.burst ≤ createdSince jobs userId (now - minute))
    (hpos : 0 < createdSince jobs userId (now - minute)) :
    ∃ oldest ∈ inWindow (createdAts jobs userId) (now - minute),
      (∀ t ∈ inWindow (createdAts jobs userId) (now - minute), oldest ≤ t) ∧
      checkRateLimit userId jobs limits now =
        .ok (.reject "burst" (secondOf (now - minute) oldest)) := by
  obtain ⟨-, hzero, -⟩ | ⟨-, h⟩ | ⟨hlt, -⟩ := checkRateLimit_cases userId jobs limits now
  · omega
  · exact h
  · omega

theorem rejects_daily (limits : RateLimits)
    (hlt : createdSince jobs userId (now - minute) < limits.burst)
    (hle : limits.daily ≤ createdSince jobs userId (now - day))
    (hpos : 0 < createdSince jobs userId (now - day)) :
    ∃ oldest ∈ inWindow (createdAts jobs userId) (now - day),
      (∀ t ∈ inWindow (createdAts jobs userId) (now - day), oldest ≤ t) ∧
      checkRateLimit userId jobs limits now =
        .ok (.reject "daily" (secondOf (now - day) oldest)) := by
  obtain ⟨hzero, -, -⟩ | ⟨hge, -⟩ | ⟨-, ⟨-, hzero, -⟩ | ⟨-, h⟩ | ⟨hbelow, -⟩⟩ :=
    checkRateLimit_cases userId jobs limits now
  · omega
  · omega
  · omega
  · exact h
  · omega

/-- The oldest job of a window is one of the jobs no later than any other. -/
theorem oldest_unique {start a b : Int} (ha : a ∈ inWindow (createdAts jobs userId) start)
    (hb : b ∈ inWindow (createdAts jobs userId) start)
    (hleast : ∀ t ∈ inWindow (createdAts jobs userId) start, a ≤ t)
    (hleast' : ∀ t ∈ inWindow (createdAts jobs userId) start, b ≤ t) : a = b :=
  Int.le_antisymm (hleast b hb) (hleast' a ha)

theorem Truthful.burstDrains (h : Truthful userId jobs limits now) (hone : 1 ≤ limits.burst)
    (hle : limits.burst ≤ createdSince jobs userId (now - minute)) :
    Drains (createdAts jobs userId) (now - minute) limits.burst := by
  intro oldest hmem hleast
  obtain ⟨oldest', hmem', hleast', hd⟩ := rejects_burst limits hle (by omega)
  obtain rfl := oldest_unique hmem hmem' hleast hleast'
  rw [← createdSince_after hmem]
  refine Nat.not_le.mp fun hagain => ?_
  -- were the minute still full after the wait, the check would reject again
  obtain ⟨_, -, -, hd'⟩ := rejects_burst limits hagain (by omega)
  exact h.waits "burst" _ hd (by simpa [RateLimits.of] using hone) jobs _ rfl (Int.le_refl _) _ hd'

theorem Truthful.dailyDrains (h : Truthful userId jobs limits now)
    (hlt : createdSince jobs userId (now - minute) < limits.burst) (hone : 1 ≤ limits.daily)
    (hle : limits.daily ≤ createdSince jobs userId (now - day)) :
    Drains (createdAts jobs userId) (now - day) limits.daily := by
  intro oldest hmem hleast
  obtain ⟨oldest', hmem', hleast', hd⟩ := rejects_daily limits hlt hle (by omega)
  obtain rfl := oldest_unique hmem hmem' hleast hleast'
  rw [← createdSince_after hmem]
  refine Nat.not_le.mp fun hagain => ?_
  -- the minute before the later instant holds no more jobs than the minute before `now`
  have hlater : now - minute ≤ now + secondOf (now - day) oldest * second - minute := by
    have := secondOf_pos hmem
    unfold second
    omega
  have hlt' := Nat.lt_of_le_of_lt (createdSince_anti jobs userId hlater) hlt
  obtain ⟨_, -, -, hd'⟩ := rejects_daily limits hlt' hagain (by omega)
  exact h.waits "daily" _ hd (by simpa [RateLimits.of] using hone) jobs _ rfl (Int.le_refl _) _ hd'

theorem Truthful.regular (h : Truthful userId jobs limits now) :
    Regular userId jobs limits now where
  burst hzero := by
    refine Nat.pos_of_ne_zero fun hnone => ?_
    obtain ⟨d, hd⟩ := h.returns
    obtain ⟨-, -, e, he⟩ | ⟨-, oldest, hmem, -⟩ | ⟨hlt, -⟩ :=
      checkRateLimit_cases userId jobs limits now
    · simp [he] at hd
    · have := createdSince_pos hmem
      omega
    · omega
  daily hzero hlt := by
    refine Nat.pos_of_ne_zero fun hnone => ?_
    obtain ⟨d, hd⟩ := h.returns
    obtain ⟨hb, -, -⟩ | ⟨hge, -⟩ | ⟨-, ⟨-, -, e, he⟩ | ⟨-, oldest, hmem, -⟩ | ⟨hbelow, -⟩⟩ :=
      checkRateLimit_cases userId jobs limits now
    · omega
    · omega
    · simp [he] at hd
    · have := createdSince_pos hmem
      omega
    · omega
  burstDrains := h.burstDrains
  dailyDrains := h.dailyDrains

theorem Regular.returns (h : Regular userId jobs limits now) :
    ∃ d, checkRateLimit userId jobs limits now = .ok d := by
  obtain ⟨hzero, hnone, -⟩ | ⟨-, oldest, -, -, hd⟩ |
      ⟨hlt, ⟨hzero, hnone, -⟩ | ⟨-, oldest, -, -, hd⟩ | ⟨-, hd⟩⟩ :=
    checkRateLimit_cases userId jobs limits now
  · have := h.burst hzero
    omega
  · exact ⟨_, hd⟩
  · have := h.daily hzero hlt
    omega
  · exact ⟨_, hd⟩
  · exact ⟨_, hd⟩

theorem Regular.rejects (h : Regular userId jobs limits now) :
    (∃ reason retry, checkRateLimit userId jobs limits now = .ok (.reject reason retry)) ↔
      limits.burst ≤ createdSince jobs userId (now - minute) ∨
        limits.daily ≤ createdSince jobs userId (now - day) := by
  obtain ⟨hzero, hnone, -⟩ | ⟨hle, oldest, -, -, hd⟩ |
      ⟨hlt, ⟨hzero, hnone, -⟩ | ⟨hle, oldest, -, -, hd⟩ | ⟨hbelow, hd⟩⟩ :=
    checkRateLimit_cases userId jobs limits now
  · have := h.burst hzero
    omega
  · exact ⟨fun _ => .inl hle, fun _ => ⟨_, _, hd⟩⟩
  · have := h.daily hzero hlt
    omega
  · exact ⟨fun _ => .inr hle, fun _ => ⟨_, _, hd⟩⟩
  · refine ⟨fun ⟨_, _, hr⟩ => ?_, fun hr => ?_⟩
    · simp [hd] at hr
    · omega

theorem Regular.waits (h : Regular userId jobs limits now) (reason : String) (retry : Int)
    (hd : checkRateLimit userId jobs limits now = .ok (.reject reason retry))
    (hone : 1 ≤ limits.of reason) (jobs' : List Job) (later : Int)
    (hsame : createdAts jobs' userId = createdAts jobs userId)
    (hlater : now + retry * second ≤ later) (retry' : Int) :
    checkRateLimit userId jobs' limits later ≠ .ok (.reject reason retry') := by
  rw [checkRateLimit_congr hsame]
  intro hagain
  by_cases hreason : reason = "burst"
  · subst hreason
    have hone : 1 ≤ limits.burst := by simpa [RateLimits.of] using hone
    obtain ⟨hle, oldest, hmem, hleast, rfl⟩ := of_rejects_burst hd
    have hdrained := h.burstDrains hone hle oldest hmem hleast
    rw [← createdSince_after hmem] at hdrained
    have hless := createdSince_anti jobs userId
      (Int.sub_le_sub_right hlater minute)
    have hfull := (of_rejects_burst hagain).1
    omega
  · have hdaily : reason = "daily" := by
      obtain ⟨-, -, e, he⟩ | ⟨-, oldest, -, -, he⟩ |
          ⟨-, ⟨-, -, e, he⟩ | ⟨-, oldest, -, -, he⟩ | ⟨-, he⟩⟩ :=
        checkRateLimit_cases userId jobs limits now
      · simp [he] at hd
      · exact absurd (by simpa [he] using hd : "burst" = reason ∧ _).1.symm hreason
      · simp [he] at hd
      · exact (by simpa [he] using hd : "daily" = reason ∧ _).1.symm
      · simp [he] at hd
    subst hdaily
    have hone : 1 ≤ limits.daily := by simpa [RateLimits.of] using hone
    obtain ⟨hlt, hle, oldest, hmem, hleast, rfl⟩ := of_rejects_daily hd
    have hdrained := h.dailyDrains hlt hone hle oldest hmem hleast
    rw [← createdSince_after hmem] at hdrained
    have hless := createdSince_anti jobs userId
      (Int.sub_le_sub_right hlater day)
    have hfull := (of_rejects_daily hagain).2.1
    omega

/-- Rejections tell the truth just for the regular histories. -/
theorem truthful_iff_regular (userId : String) (jobs : List Job) (limits : RateLimits)
    (now : Int) : Truthful userId jobs limits now ↔ Regular userId jobs limits now :=
  ⟨Truthful.regular, fun h => ⟨h.returns, h.rejects, h.waits⟩⟩

/-- A job of a user that was created at an instant. -/
def createdJob (userId : String) (createdAt : Int) : Job where
  jobId := 1
  userId := userId
  action := "echo"
  jobType := .oneShot
  scheduledAt := some createdAt
  cronExpr := none
  timezone := "UTC"
  cancelledAt := none
  triggerOnJobId := none
  triggerOnStatus := none
  idempotencyKey := none
  state := .active
  createdAt := createdAt
  updatedAt := createdAt

/-- With two jobs in a minute that allows one, the second is still in it when the wait for the
first is over; and a limit of zero raises where nothing was created. -/
theorem told_to_wait_too_short :
    ¬ Truthful "u" [createdJob "u" (10 * second), createdJob "u" (50 * second)] ⟨100, 1⟩
        (60 * second) ∧
      ¬ Truthful "u" [] ⟨0, 0⟩ 0 := by
  constructor
  · intro h
    exact h.waits "burst" 10 (by decide) (by decide) _ (70 * second) rfl (by decide) 40 (by decide)
  · intro h
    obtain ⟨d, hd⟩ := h.returns
    exact absurd hd nofun

end Both

end TaskScheduler.Ratelimit
