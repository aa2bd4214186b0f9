import TaskScheduler.Quotas.Containment
import TaskScheduler.Ratelimit.Checker

/-! What the rate limit of `task.create` bounds, over any run.  A request counts its two windows, one
statement after the other, goes through the containment caps, and inserts its job later; so a window
holds no more jobs than its limit and the requests of the user that run together. -/

namespace TaskScheduler.Ratelimit

open Lib

/-! ### The windows -/

/-- A window of `check_rate_limit`. -/
structure Window where
  length : Int
  limit : Nat
  reason : String

def RateLimits.windows (limits : RateLimits) : List Window :=
  [⟨minute, limits.burst, "burst"⟩, ⟨day, limits.daily, "daily"⟩]

/-- The check of the window alone. -/
def Window.check (w : Window) (userId : String) (jobs : List Job) (now : Int) :
    Except PyError RateLimitDecision :=
  checkWindow (createdAts jobs userId) now w.length w.limit w.reason (.ok .allow)

theorem Window.check_allows {w : Window} {userId : String} {jobs : List Job} {now : Int} :
    w.check userId jobs now = .ok .allow ↔ createdSince jobs userId (now - w.length) < w.limit := by
  rw [createdSince_eq]
  constructor
  · intro h
    by_contra hge
    unfold Window.check checkWindow at h
    rw [if_pos (Nat.not_lt.mp hge)] at h
    split at h <;> cases h
  · exact fun hlt => checkWindow_of_lt hlt

/-- The check allows what both of its windows allow. -/
theorem checkRateLimit_allows {userId : String} {jobs : List Job} {limits : RateLimits} {now : Int} :
    checkRateLimit userId jobs limits now = .ok .allow ↔
      ∀ w ∈ limits.windows, w.check userId jobs now = .ok .allow := by
  have hwindows : (∀ w ∈ limits.windows, w.check userId jobs now = .ok .allow) ↔
      createdSince jobs userId (now - minute) < limits.burst ∧
        createdSince jobs userId (now - day) < limits.daily := by
    simp only [RateLimits.windows, List.forall_mem_cons, List.not_mem_nil, false_implies,
      implies_true, and_true, Window.check_allows]
  rw [hwindows]
  obtain ⟨hzero, hnone, e, he⟩ | ⟨hle, oldest, -, -, he⟩ |
      ⟨hlt, ⟨hzero, hnone, e, he⟩ | ⟨hle, oldest, -, -, he⟩ | ⟨hday, he⟩⟩ :=
    checkRateLimit_cases userId jobs limits now
  · exact iff_of_false (by rw [he]; exact nofun) (by omega)
  · exact iff_of_false (by rw [he]; exact nofun) (by omega)
  · exact iff_of_false (by rw [he]; exact nofun) (by omega)
  · exact iff_of_false (by rw [he]; exact nofun) (by omega)
  · exact iff_of_true he ⟨hlt, hday⟩

/-! ### Requests -/

/-- A `task.create` that counts its windows: its arguments, the instant that its check has taken, and
the windows that it has passed. -/
structure Checking where
  args : CreateArgs
  now : Int
  passed : Nat

/-- The system with its requests, those in the containment check and after it behind those in the
rate limit, and the clock of the processes. -/
structure Gate where
  front : Front := {}
  clock : Int := 0
  checking : List Checking := []

/-- The steps: time passes, a request of a user that is not the operator begins its check, counts
its next window, goes on to the containment caps, or is given up; and the steps behind the rate
limit. -/
inductive GateAct
  | tick (d : Nat)
  | arrive (args : CreateArgs)
  | count (i : Nat)
  | enter (i n : Nat)
  | leave (i : Nat)
  | behind (a : FrontAct)

/-- The step lets a request into the containment check. -/
def begins : FrontAct → Bool
  | .begin_ _ _ => true
  | _ => false

/-- The requests of a user that the step lets in. -/
def entering (userId : String) : FrontAct → Nat
  | .begin_ args _ => if args.userId == userId then 1 else 0
  | _ => 0

/-- The settings of the two checks. -/
structure GateSettings where
  rates : RateLimits
  caps : ContainmentLimits
  operatorUserId : Option String

namespace Gate

def step (cfg : Config) (set : GateSettings) (γ : Gate) : GateAct → Option Gate
  | .tick d => some { γ with clock := γ.clock + d }
  | .arrive args =>
    if isOperator set.operatorUserId args.userId then none
    else some { γ with checking := γ.checking ++ [⟨args, γ.clock, 0⟩] }
  | .count i =>
    match γ.checking[i]? with
    | none => none
    | some r =>
      match set.rates.windows[r.passed]? with
      | none => none
      | some w =>
        if w.check r.args.userId γ.front.sys.tables.jobs r.now = .ok .allow then
          some { γ with checking := γ.checking.set i { r with passed := r.passed + 1 } }
        else some { γ with checking := γ.checking.eraseIdx i }
  | .enter i n =>
    match γ.checking[i]? with
    | none => none
    | some r =>
      if r.passed = set.rates.windows.length then
        (γ.front.step cfg set.caps set.operatorUserId (.begin_ r.args n)).map fun front =>
          { γ with front := front, checking := γ.checking.eraseIdx i }
      else none
  | .leave i => some { γ with checking := γ.checking.eraseIdx i }
  | .behind a =>
    if begins a then none
    else (γ.front.step cfg set.caps set.operatorUserId a).map fun front => { γ with front := front }

/-- The states that are reached through states that satisfy `ok`. -/
inductive Reach (cfg : Config) (set : GateSettings) (ok : Gate → Prop) : Gate → Prop
  | init : Reach cfg set ok {}
  | step {γ γ' : Gate} {a : GateAct} : Reach cfg set ok γ → γ.step cfg set a = some γ' → ok γ' →
    Reach cfg set ok γ'

/-- The requests of a user in the rate limit that have passed more than `s` windows. -/
def beyond (γ : Gate) (userId : String) (s : Nat) : Nat :=
  γ.checking.countP fun r => r.args.userId == userId && decide (s < r.passed)

/-- The requests of a user in flight. -/
def inFlight (γ : Gate) (userId : String) : Nat :=
  γ.checking.countP (fun r => r.args.userId == userId) + γ.front.inFlight (· == userId)

end Gate

/-! ### Behind the rate limit -/

section Behind

variable {cfg : Config} {caps : ContainmentLimits} {operatorUserId : Option String} {φ φ' : Front}
  {u : String}

theorem since_createdAt {a b : Job} (h : a.Since b) : b.createdAt = a.createdAt := by
  rw [since_aging.sameDef h]

/-- Jobs keep their times, and a new one may enter the window. -/
theorem createdSince_step {t t' : Tables} {new : List Job}
    (h : List.Forall₂ Job.Since (t.jobs ++ new) t'.jobs) (u : String) (start : Int) : createdSince t'.jobs u start ≤
      createdSince t.jobs u start + new.countP (fun j => j.userId == u) := by
  have hall := pointwise_countP (p := fun j => j.userId == u && decide (start < j.createdAt)) h
    fun hs hb => by rwa [hs.userId, since_createdAt hs] at hb
  rw [List.countP_append] at hall
  have hnew : new.countP (fun j => j.userId == u && decide (start < j.createdAt)) ≤
      new.countP (fun j => j.userId == u) := by
    refine List.countP_mono_left fun j _ hj => ?_
    simp only [Bool.and_eq_true] at hj
    exact hj.1
  unfold createdSince
  omega

theorem count_args (σ : Sys) (r : Request) : (r.count σ).args = r.args := by
  unfold Request.count
  split
  · split <;> rfl
  · rfl

theorem counts_args (σ : Sys) (n : Nat) (r : Request) : ((Request.count σ)^[n] r).args = r.args := by
  induction n with
  | zero => rfl
  | succ n ih => rw [Function.iterate_succ_apply', count_args, ih]

/-- A job that is created without a request is the operator's. -/
theorem operators (hφ : φ.Sound cfg caps operatorUserId) {a : Act}
    (hcreator : a.creator.all (isOperator operatorUserId) = true) {now : Int} {args : CreateArgs}
    (hk : φ.sys.commits a = some (.create now args)) :
    isOperator operatorUserId args.userId = true := by
  cases a with
  | atomic k start pick =>
    simp only [Sys.commits, Option.some.injEq] at hk
    subst hk
    simpa [Act.creator] using hcreator
  | commit i =>
    obtain ⟨o, ho, hkind⟩ := Option.map_eq_some_iff.mp hk
    exact hφ.sessions i o now args (Option.join_eq_some_iff.mp ho) hkind
  | _ => cases hk

/-- What the user has in a window and in flight behind the rate limit grows only by a request that is
let in. -/
theorem front_step (hφ : φ.Sound cfg caps operatorUserId) (hu : isOperator operatorUserId u = false)
    {a : FrontAct} (hstep : φ.step cfg caps operatorUserId a = some φ') (start : Int) :
    createdSince φ'.sys.tables.jobs u start + φ'.inFlight (· == u) ≤
      createdSince φ.sys.tables.jobs u start + φ.inFlight (· == u) + entering u a := by
  unfold Front.inFlight
  cases a with
  | begin_ args n =>
    simp only [Front.step] at hstep
    split at hstep
    · cases hstep
    · cases hstep
      split
      · exact Nat.le_add_right _ _
      · rw [List.countP_append, List.countP_singleton, counts_args]
        exact Nat.le_of_eq (Nat.add_assoc _ _ _).symm
  | check i n =>
    simp only [Front.step] at hstep
    split at hstep
    · cases hstep
    · next r hr =>
      cases hstep
      obtain ⟨hlt, hget⟩ := List.getElem?_eq_some_iff.mp hr
      dsimp only
      split
      · have := List.Sublist.countP_le (p := fun r : Request => r.args.userId == u)
          (List.eraseIdx_sublist φ.requests i)
        omega
      · rw [List.countP_set hlt, hget, counts_args]
        have hpos : (r.args.userId == u) = true →
            0 < φ.requests.countP fun r => r.args.userId == u := fun hr' =>
          List.countP_pos_iff.mpr ⟨r, List.mem_of_getElem? hr, hr'⟩
        split
        · next hown =>
          have := hpos hown
          omega
        · omega
  | insert i now at_ pick =>
    simp only [Front.step] at hstep
    split at hstep
    · cases hstep
    · next r hr =>
      split at hstep
      · obtain ⟨σ, hσ, rfl⟩ := Option.map_eq_some_iff.mp hstep
        obtain ⟨hlt, hget⟩ := List.getElem?_eq_some_iff.mp hr
        have herase := (List.getElem_cons_eraseIdx_perm hlt).countP_eq fun r => r.args.userId == u
        rw [List.countP_cons, hget] at herase
        obtain ⟨new, hjobs, hnew⟩ := Sys.step_jobs hφ.reach.interleaved hσ
        have hload := createdSince_step hjobs u start
        -- the new job is of the user whose request is gone
        have hown : new.countP (fun j => j.userId == u) ≤
            if r.args.userId == u then 1 else 0 := by
          rcases hnew with rfl | ⟨now', args, row, hk, rfl, huser⟩
          · exact Nat.zero_le _
          · simp only [Sys.commits, Option.some.injEq, Kind.create.injEq] at hk
            rw [List.countP_singleton, huser, ← hk.2]
        dsimp only
        omega
      · cases hstep
  | leave i =>
    cases hstep
    have := List.Sublist.countP_le (p := fun r : Request => r.args.userId == u)
      (List.eraseIdx_sublist φ.requests i)
    dsimp only
    omega
  | other a =>
    simp only [Front.step] at hstep
    split at hstep
    · next hcreator =>
      obtain ⟨σ, hσ, rfl⟩ := Option.map_eq_some_iff.mp hstep
      obtain ⟨new, hjobs, hnew⟩ := Sys.step_jobs hφ.reach.interleaved hσ
      have hload := createdSince_step hjobs u start
      have hnone : new.countP (fun j => j.userId == u) = 0 := by
        rcases hnew with rfl | ⟨now, args, row, hk, rfl, huser⟩
        · rfl
        · rw [List.countP_singleton, huser, if_neg]
          intro hown
          rw [← beq_iff_eq.mp hown, operators hφ hcreator hk] at hu
          cases hu
      dsimp only
      omega
    · cases hstep

end Behind

/-! ### The bound -/

namespace Gate

variable {cfg : Config} {set : GateSettings} {ok : Gate → Prop} {γ γ' : Gate} {u : String}

/-- The requests in the rate limit are of users that are not the operator, and have taken an instant
that has come. -/
structure Sound (cfg : Config) (set : GateSettings) (γ : Gate) : Prop where
  front : γ.front.Sound cfg set.caps set.operatorUserId
  came : ∀ r ∈ γ.checking, r.now ≤ γ.clock

theorem Sound.step (h : γ.Sound cfg set) {a : GateAct} (hstep : γ.step cfg set a = some γ') :
    γ'.Sound cfg set := by
  cases a with
  | tick d =>
    cases hstep
    refine ⟨h.front, fun r hr => ?_⟩
    have := h.came r hr
    show r.now ≤ γ.clock + d
    omega
  | arrive args =>
    simp only [Gate.step] at hstep
    split at hstep <;> cases hstep
    refine ⟨h.front, fun r hr => ?_⟩
    rcases List.mem_append.mp hr with hr | hr
    · exact h.came r hr
    · rw [List.mem_singleton.mp hr]
  | count i =>
    simp only [Gate.step] at hstep
    split at hstep
    · cases hstep
    · next r hr =>
      split at hstep
      · cases hstep
      · split at hstep <;> cases hstep
        · refine ⟨h.front, fun x hx => ?_⟩
          rcases List.mem_or_eq_of_mem_set hx with hx | rfl
          · exact h.came x hx
          · exact h.came r (List.mem_of_getElem? hr)
        · exact ⟨h.front, fun x hx => h.came x (List.mem_of_mem_eraseIdx hx)⟩
  | enter i n =>
    simp only [Gate.step] at hstep
    split at hstep
    · cases hstep
    · split at hstep
      · obtain ⟨front, hfront, rfl⟩ := Option.map_eq_some_iff.mp hstep
        exact ⟨h.front.step hfront, fun x hx => h.came x (List.mem_of_mem_eraseIdx hx)⟩
      · cases hstep
  | leave i =>
    cases hstep
    exact ⟨h.front, fun x hx => h.came x (List.mem_of_mem_eraseIdx hx)⟩
  | behind a =>
    simp only [Gate.step] at hstep
    split at hstep
    · cases hstep
    · obtain ⟨front, hfront, rfl⟩ := Option.map_eq_some_iff.mp hstep
      exact ⟨h.front.step hfront, h.came⟩

theorem Reach.sound (h : Reach cfg set ok γ) : γ.Sound cfg set := by
  induction h with
  | init => exact ⟨⟨.init, by simp, by simp⟩, by simp⟩
  | step _ hstep _ ih => exact ih.step hstep

/-- What a window of the user holds, and the requests that have passed it. -/
def charged (γ : Gate) (userId : String) (s : Nat) (w : Window) : Nat :=
  createdSince γ.front.sys.tables.jobs userId (γ.clock - w.length) +
    (γ.beyond userId s + γ.front.inFlight (· == userId))

theorem beyond_le (γ : Gate) (userId : String) (s : Nat) :
    γ.beyond userId s + γ.front.inFlight (· == userId) ≤ γ.inFlight userId := by
  have : γ.beyond userId s ≤ γ.checking.countP fun r => r.args.userId == userId := by
    refine List.countP_mono_left fun r _ hr => ?_
    simp only [Bool.and_eq_true] at hr
    exact hr.1
  unfold inFlight
  omega

theorem createdSince_le (jobs : List Job) (userId : String) {start start' : Int}
    (h : start ≤ start') : createdSince jobs userId start' ≤ createdSince jobs userId start := by
  rw [createdSince_eq, createdSince_eq]
  exact inWindow_length_le h

/-- One step: a request is charged for a window when it finds room in it. -/
theorem charged_step (h : γ.Sound cfg set) (hu : isOperator set.operatorUserId u = false) {s : Nat}
    {w : Window} (hw : set.rates.windows[s]? = some w) {K : Nat} {a : GateAct}
    (hstep : γ.step cfg set a = some γ') (hK : γ'.inFlight u ≤ K)
    (hcharged : γ.charged u s w ≤ w.limit - 1 + K) : γ'.charged u s w ≤ w.limit - 1 + K := by
  have hlt : s < set.rates.windows.length := (List.getElem?_eq_some_iff.mp hw).1
  -- a request that is given up is no longer charged
  have herased : ∀ i, Gate.beyond { γ with checking := γ.checking.eraseIdx i } u s ≤ γ.beyond u s :=
    fun i => List.Sublist.countP_le (List.eraseIdx_sublist γ.checking i)
  unfold charged at hcharged ⊢
  cases a with
  | tick d =>
    cases hstep
    have hlater : γ.clock - w.length ≤ γ.clock + d - w.length := by omega
    have hdrain := createdSince_le γ.front.sys.tables.jobs u hlater
    exact (Nat.add_le_add_right hdrain _).trans hcharged
  | arrive args =>
    simp only [Gate.step] at hstep
    split at hstep <;> cases hstep
    have hnew : Gate.beyond { γ with checking := γ.checking ++ [⟨args, γ.clock, 0⟩] } u s =
        γ.beyond u s := by
      simp [Gate.beyond]
    rw [hnew]
    exact hcharged
  | count i =>
    simp only [Gate.step] at hstep
    split at hstep
    · cases hstep
    · next r hr =>
      split at hstep
      · cases hstep
      · next w' hw' =>
        split at hstep <;> cases hstep
        · next hallows =>
          by_cases hnew : r.args.userId = u ∧ r.passed = s
          · -- the count has just found room in the window, which has only drained since
            obtain ⟨rfl, rfl⟩ := hnew
            obtain rfl := Option.some.inj (hw'.symm.trans hw)
            have hroom := Window.check_allows.mp hallows
            have hcame := h.came r (List.mem_of_getElem? hr)
            have hlater : r.now - w'.length ≤ γ.clock - w'.length := by omega
            have hdrain := createdSince_le γ.front.sys.tables.jobs r.args.userId hlater
            have hflight := (beyond_le _ _ r.passed).trans hK
            dsimp only at hflight ⊢
            omega
          · have hsame : Gate.beyond
                { γ with checking := γ.checking.set i { r with passed := r.passed + 1 } } u s =
                γ.beyond u s := by
              obtain ⟨hi, hget⟩ := List.getElem?_eq_some_iff.mp hr
              have hp : (r.args.userId == u && decide (s < r.passed + 1)) =
                  (r.args.userId == u && decide (s < r.passed)) := by
                rw [Bool.eq_iff_iff]
                simp only [Bool.and_eq_true, beq_iff_eq, decide_eq_true_eq]
                refine and_congr_right fun hown => ?_
                have hother : r.passed ≠ s := fun hs => hnew ⟨hown, hs⟩
                omega
              unfold Gate.beyond
              rw [List.countP_set hi, hget, hp]
              split
              · next hown =>
                have hpos : 0 < γ.checking.countP fun r =>
                    r.args.userId == u && decide (s < r.passed) :=
                  List.countP_pos_iff.mpr ⟨r, List.mem_of_getElem? hr, hown⟩
                omega
              · omega
            rw [hsame]
            exact hcharged
        · have := herased i
          dsimp only at this ⊢
          omega
  | enter i n =>
    simp only [Gate.step] at hstep
    split at hstep
    · cases hstep
    · next r hr =>
      split at hstep
      · next hpassed =>
        obtain ⟨front, hfront, rfl⟩ := Option.map_eq_some_iff.mp hstep
        obtain ⟨hi, hget⟩ := List.getElem?_eq_some_iff.mp hr
        have hbehind := front_step h.front hu hfront (γ.clock - w.length)
        have hmoved : Gate.beyond { γ with front := front, checking := γ.checking.eraseIdx i } u s +
            entering u (.begin_ r.args n) = γ.beyond u s := by
          have herase := (List.getElem_cons_eraseIdx_perm hi).countP_eq fun r : Checking =>
            r.args.userId == u && decide (s < r.passed)
          rw [List.countP_cons, hget] at herase
          have hs : decide (s < r.passed) = true := by
            rw [decide_eq_true_eq, hpassed]
            exact hlt
          rw [hs, Bool.and_true] at herase
          exact herase
        dsimp only at hmoved ⊢
        omega
      · cases hstep
  | leave i =>
    cases hstep
    have := herased i
    dsimp only at this ⊢
    omega
  | behind a =>
    simp only [Gate.step] at hstep
    split at hstep
    · cases hstep
    · next hbegins =>
      obtain ⟨front, hfront, rfl⟩ := Option.map_eq_some_iff.mp hstep
      have hbehind := front_step h.front hu hfront (γ.clock - w.length)
      have hnone : entering u a = 0 := by
        cases a with
        | begin_ args n => exact absurd rfl hbegins
        | _ => rfl
      have hsame : Gate.beyond { γ with front := front } u s = γ.beyond u s := rfl
      dsimp only at hsame ⊢
      omega

/-- With at most `K` requests of the user together, whatever interleaves: the last minute holds at most
`K - 1` jobs more than the burst limit, and the last day as many more than the daily one. -/
theorem rate_windows (cfg : Config) (set : GateSettings) (K : Nat)
    (hu : isOperator set.operatorUserId u = false)
    (h : Reach cfg set (fun γ => γ.inFlight u ≤ K) γ) :
    createdSince γ.front.sys.tables.jobs u (γ.clock - minute) ≤ set.rates.burst - 1 + K ∧
      createdSince γ.front.sys.tables.jobs u (γ.clock - day) ≤ set.rates.daily - 1 + K := by
  have hall : ∀ s w, set.rates.windows[s]? = some w → γ.charged u s w ≤ w.limit - 1 + K := by
    intro s w hw
    induction h with
    | init =>
      have hzero : Gate.charged {} u s w = 0 := by
        simp [Gate.charged, createdSince, Gate.beyond, Front.inFlight]
      rw [hzero]
      exact Nat.zero_le _
    | step hreach hstep hok ih => exact charged_step hreach.sound hu hw hstep hok ih
  have hburst := hall 0 ⟨minute, set.rates.burst, "burst"⟩ rfl
  have hdaily := hall 1 ⟨day, set.rates.daily, "daily"⟩ rfl
  unfold charged at hburst hdaily
  exact ⟨(Nat.le_add_right _ _).trans hburst, (Nat.le_add_right _ _).trans hdaily⟩

/-- The listed steps, if each is possible and leads to a state that satisfies `ok`. -/
def runActs (cfg : Config) (set : GateSettings) (ok : Gate → Bool) (γ : Gate) :
    List GateAct → Option Gate
  | [] => some γ
  | a :: as => (γ.step cfg set a).bind fun γ' =>
    if ok γ' then γ'.runActs cfg set ok as else none

theorem Reach.runActs {okb : Gate → Bool} {as : List GateAct} (hreach : Reach cfg set ok γ)
    (hok : ∀ γ, okb γ = true → ok γ) (h : γ.runActs cfg set okb as = some γ') :
    Reach cfg set ok γ' := by
  induction as generalizing γ with
  | nil =>
    cases h
    exact hreach
  | cons a as ih =>
    simp only [Gate.runActs, Option.bind_eq_some_iff] at h
    obtain ⟨γ₁, hstep, hrest⟩ := h
    split at hrest
    · next hγ => exact ih (hreach.step hstep (hok γ₁ hγ)) hrest
    · cases hrest

/-- One task a minute. -/
def oneAMinute : GateSettings := ⟨⟨50, 1⟩, ⟨5, 20, 500⟩, none⟩

/-- Two requests of one user that count both of their windows before either has inserted. -/
def twoCounts : List GateAct :=
  [.arrive (.echo none none none), .arrive (.echo none none none), .count 0, .count 0, .count 1,
    .count 1, .enter 0 2, .enter 0 2, .behind (.insert 0 1 1 fun _ => true),
    .behind (.insert 0 2 2 fun _ => true)]

theorem twoCounts_windows : ∃ γ,
    runActs .minutely oneAMinute (fun γ => decide (γ.inFlight "alice" ≤ 2)) {} twoCounts = some γ ∧
      createdSince γ.front.sys.tables.jobs "alice" (γ.clock - minute) = 2 ∧
      createdSince γ.front.sys.tables.jobs "alice" (γ.clock - minute) ≤ 1 - 1 + 2 := by
  have hsome : (runActs .minutely oneAMinute (fun γ => decide (γ.inFlight "alice" ≤ 2)) {}
      twoCounts).any (fun γ => createdSince γ.front.sys.tables.jobs "alice" (γ.clock - minute) == 2) =
      true := by decide +kernel
  obtain ⟨γ, hγ, htwo⟩ := (Option.any_eq_true _ _).mp hsome
  have hreach := Reach.runActs (.init : Reach .minutely oneAMinute
    (fun γ => γ.inFlight "alice" ≤ 2) {}) (fun _ h => of_decide_eq_true h) hγ
  refine ⟨γ, hγ, beq_iff_eq.mp htwo, ?_⟩
  exact (rate_windows .minutely oneAMinute 2 rfl hreach).1

end Gate

end TaskScheduler.Ratelimit
