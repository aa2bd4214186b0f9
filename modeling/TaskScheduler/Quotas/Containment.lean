import Mathlib.Data.List.Perm.Basic
import Mathlib.Logic.Function.Iterate
import TaskScheduler.Interleave.System

/-! The containment caps of `app/quotas/containment.py`, and `task.create` of `app/mcp/server.py` as
a request that checks them and inserts its job later.  Requests in flight are charged against the
caps, so that the active jobs overshoot a cap by no more than the requests that run together. -/

namespace TaskScheduler

open Lib

/-! ### The check -/

structure ContainmentLimits where
  activeRecurringPerUser : Nat
  activeTotalPerUser : Nat
  globalActiveRecurring : Nat

inductive ContainmentDecision
  | allow
  | reject (reason : String) (retryAfterSeconds : Nat)
  deriving DecidableEq, Repr

/-- `_RETRY_AFTER`. -/
def retryAfter : Nat := 60

/-- One cap of `check_containment`: the count of the jobs that match, against its limit. -/
def checkCap (p : Job → Bool) (limit : Nat) (reason : String) (rest : Txn ContainmentDecision) :
    Txn ContainmentDecision := do
  let jobs ← Txn.selectJobs p
  if jobs.length ≥ limit then
    return .reject reason retryAfter
  rest

/-- `check_containment` from its third cap on. -/
def checkGlobal (limits : ContainmentLimits) : Txn ContainmentDecision :=
  checkCap (fun j => j.state == .active && j.jobType == .recurring)
    limits.globalActiveRecurring "global_active_recurring" (return .allow)

/-- `check_containment` from its second cap on. -/
def checkTotal (userId : String) (limits : ContainmentLimits) : Txn ContainmentDecision :=
  checkCap (fun j => j.userId == userId && j.state == .active)
    limits.activeTotalPerUser "active_total_per_user" (checkGlobal limits)

/-- `check_containment`: three counts, each a statement of its own. -/
def checkContainment (userId : String) (limits : ContainmentLimits) (isOperator : Bool) :
    Txn ContainmentDecision :=
  if isOperator then return .allow
  else
    checkCap (fun j => j.userId == userId && j.state == .active && j.jobType == .recurring)
      limits.activeRecurringPerUser "active_recurring_per_user" (checkTotal userId limits)

/-! ### Requests -/

/-- `is_operator` of `_handle_task_create`. -/
def isOperator (operatorUserId : Option String) (userId : String) : Bool :=
  operatorUserId.getD "" != "" && some userId == operatorUserId

/-- A `task.create` in flight: its arguments, the counts it has made, and what is left of its
check. -/
structure Request where
  args : CreateArgs
  passed : Nat
  check : Txn ContainmentDecision

namespace Request

def rejected (r : Request) : Bool :=
  match r.check with
  | .ret (.reject _ _) => true
  | _ => false

def allowed (r : Request) : Bool :=
  match r.check with
  | .ret .allow => true
  | _ => false

/-- The next count of the check, in a session that has written nothing. -/
def count (σ : Sys) (r : Request) : Request :=
  match r.check with
  | .op s rest =>
    match s.exec (fun _ => true) σ.open_ σ.tables (σ.seq, { start := 0 }) with
    | some (reply, _) => ⟨r.args, r.passed + 1, rest reply⟩
    | none => r
  | _ => r

/-- The request of a user that is not the operator, before its first count. -/
def new (limits : ContainmentLimits) (args : CreateArgs) : Request :=
  ⟨args, 0, checkContainment args.userId limits false⟩

end Request

/-- The system behind the requests in flight. -/
structure Front where
  sys : Sys := {}
  requests : List Request := []

/-- The steps: a request begins with the first `n + 1` counts of its check, makes the next `n`,
inserts its job once the check has allowed it, or is given up; and every other step of the system,
in which only the operator creates jobs without a check. -/
inductive FrontAct
  | begin_ (args : CreateArgs) (n : Nat)
  | check (i n : Nat)
  | insert (i : Nat) (now start : Int) (pick : Nat → Bool)
  | leave (i : Nat)
  | other (a : Act)

/-- The user whose creation the step begins or makes. -/
def Act.creator : Act → Option String
  | .atomic (.create _ args) _ _ => some args.userId
  | .start (.create _ args) _ => some args.userId
  | _ => none

namespace Front

def step (cfg : Config) (limits : ContainmentLimits) (operatorUserId : Option String) (φ : Front) :
    FrontAct → Option Front
  | .begin_ args n =>
    if isOperator operatorUserId args.userId then none
    else
      let r := (Request.count φ.sys)^[n + 1] (.new limits args)
      some (if r.rejected then φ else { φ with requests := φ.requests ++ [r] })
  | .check i n =>
    match φ.requests[i]? with
    | none => none
    | some r =>
      let r := (Request.count φ.sys)^[n] r
      some { φ with
        requests := if r.rejected then φ.requests.eraseIdx i else φ.requests.set i r }
  | .insert i now start pick =>
    match φ.requests[i]? with
    | none => none
    | some r =>
      if r.allowed then
        let args := { r.args with operatorUserId := operatorUserId }
        (φ.sys.step cfg (.atomic (.create now args) start pick)).map fun sys =>
          ⟨sys, φ.requests.eraseIdx i⟩
      else none
  | .leave i => some { φ with requests := φ.requests.eraseIdx i }
  | .other a =>
    if a.creator.all (isOperator operatorUserId) then
      (φ.sys.step cfg a).map fun sys => { φ with sys := sys }
    else none

/-- The states that are reached through states that satisfy `ok`. -/
inductive Reach (cfg : Config) (limits : ContainmentLimits) (operatorUserId : Option String)
    (ok : Front → Prop) : Front → Prop
  | init : Reach cfg limits operatorUserId ok {}
  | step {φ φ' : Front} {a : FrontAct} : Reach cfg limits operatorUserId ok φ →
    φ.step cfg limits operatorUserId a = some φ' → ok φ' → Reach cfg limits operatorUserId ok φ'

/-- The requests in flight of the users in `cls`. -/
def inFlight (φ : Front) (cls : String → Bool) : Nat :=
  φ.requests.countP fun r => cls r.args.userId

/-- The active jobs of a user. -/
def active (φ : Front) (userId : String) : Nat :=
  φ.sys.tables.jobs.countP fun j => j.userId == userId && j.state == .active

/-- The active recurring jobs of the users in `cls`. -/
def activeRecurring (φ : Front) (cls : String → Bool) : Nat :=
  φ.sys.tables.jobs.countP fun j => cls j.userId && j.state == .active && j.jobType == .recurring

end Front

/-! ### What a request has seen -/

/-- The count that the cap `stage` compares, below its limit. -/
def ContainmentLimits.Under (limits : ContainmentLimits) (userId : String) (t : Tables) : Nat → Prop
  | 1 => (t.jobs.countP fun j => j.userId == userId && j.state == .active &&
      j.jobType == .recurring) < limits.activeRecurringPerUser
  | 2 => (t.jobs.countP fun j => j.userId == userId && j.state == .active) <
      limits.activeTotalPerUser
  | 3 => (t.jobs.countP fun j => j.state == .active && j.jobType == .recurring) <
      limits.globalActiveRecurring
  | _ => True

namespace Request

variable {limits : ContainmentLimits} {σ : Sys} {r : Request}

/-- A request that is not rejected stands before one of the three counts, or behind them. -/
structure Stands (limits : ContainmentLimits) (r : Request) : Prop where
  kept : r.rejected = false
  before : (r.passed = 0 ∧ r.check = checkContainment r.args.userId limits false) ∨
    (r.passed = 1 ∧ r.check = checkTotal r.args.userId limits) ∨
    (r.passed = 2 ∧ r.check = checkGlobal limits) ∨ (r.passed = 3 ∧ r.check = .ret .allow)

theorem Stands.new (args : CreateArgs) : (Request.new limits args).Stands limits :=
  ⟨rfl, .inl ⟨rfl, rfl⟩⟩

theorem Stands.passed_of_allowed (h : r.Stands limits) (hr : r.allowed = true) : r.passed = 3 := by
  rcases h.before with ⟨-, hc⟩ | ⟨-, hc⟩ | ⟨-, hc⟩ | ⟨hp, -⟩
  · rw [Request.allowed, hc] at hr
    cases hr
  · rw [Request.allowed, hc] at hr
    cases hr
  · rw [Request.allowed, hc] at hr
    cases hr
  · exact hp

/-- A request after some of its counts: it is rejected, or each count that it has made since was
below its cap. -/
structure Counted (limits : ContainmentLimits) (t : Tables) (r r' : Request) : Prop where
  args : r'.args = r.args
  stands : r'.Stands limits
  le : r.passed ≤ r'.passed
  under : ∀ stage, r.passed < stage → stage ≤ r'.passed → limits.Under r.args.userId t stage

theorem Counted.refl {t : Tables} (h : r.Stands limits) : Counted limits t r r :=
  ⟨rfl, h, Nat.le_refl _, fun _ hlt hle => absurd hlt (Nat.not_lt.mpr hle)⟩

theorem Counted.trans {t : Tables} {r' r'' : Request} (h : Counted limits t r r')
    (h' : Counted limits t r' r'') : Counted limits t r r'' := by
  refine ⟨h'.args.trans h.args, h'.stands, h.le.trans h'.le, fun stage hlt hle => ?_⟩
  by_cases hmid : stage ≤ r'.passed
  · exact h.under stage hlt hmid
  · have := h'.under stage (Nat.not_le.mp hmid) hle
    rwa [h.args] at this

theorem count_checkCap {p : Job → Bool} {limit : Nat} {reason : String}
    {rest : Txn ContainmentDecision} (h : r.check = checkCap p limit reason rest) :
    r.count σ = ⟨r.args, r.passed + 1, if limit ≤ σ.tables.jobs.countP p then
      .ret (.reject reason retryAfter) else rest⟩ := by
  rw [List.countP_eq_length_filter, Request.count, h]
  rfl

/-- One count. -/
theorem count_cases (h : r.Stands limits) :
    (r.count σ).rejected = true ∨ Counted limits σ.tables r (r.count σ) := by
  have hone : ∀ {r' : Request}, r'.args = r.args → r'.Stands limits → r'.passed = r.passed + 1 →
      limits.Under r.args.userId σ.tables (r.passed + 1) → Counted limits σ.tables r r' := by
    intro r' hargs hstands hpassed hunder
    refine ⟨hargs, hstands, by omega, fun stage hlt hle => ?_⟩
    have : stage = r.passed + 1 := by omega
    rw [this]
    exact hunder
  -- each cap either rejects, or lets the request through to what comes after it
  have hcap : ∀ {p : Job → Bool} {limit : Nat} {reason : String} {rest : Txn ContainmentDecision},
      r.check = checkCap p limit reason rest →
      ((r.count σ).rejected = true ∨ σ.tables.jobs.countP p < limit ∧
        r.count σ = ⟨r.args, r.passed + 1, rest⟩) := by
    intro p limit reason rest hc
    have hcount := count_checkCap (σ := σ) hc
    by_cases hle : limit ≤ σ.tables.jobs.countP p
    · rw [hcount, if_pos hle]
      exact .inl rfl
    · rw [hcount, if_neg hle]
      exact .inr ⟨Nat.not_le.mp hle, rfl⟩
  rcases h.before with ⟨hp, hc⟩ | ⟨hp, hc⟩ | ⟨hp, hc⟩ | ⟨-, hc⟩
  · rcases hcap hc with hrej | ⟨hlt, heq⟩
    · exact .inl hrej
    · rw [heq]
      refine .inr (hone rfl ⟨rfl, .inr (.inl ⟨?_, rfl⟩)⟩ rfl ?_)
      · rw [hp]
      · rw [hp]
        exact hlt
  · rcases hcap hc with hrej | ⟨hlt, heq⟩
    · exact .inl hrej
    · rw [heq]
      refine .inr (hone rfl ⟨rfl, .inr (.inr (.inl ⟨?_, rfl⟩))⟩ rfl ?_)
      · rw [hp]
      · rw [hp]
        exact hlt
  · rcases hcap hc with hrej | ⟨hlt, heq⟩
    · exact .inl hrej
    · rw [heq]
      refine .inr (hone rfl ⟨rfl, .inr (.inr (.inr ⟨?_, rfl⟩))⟩ rfl ?_)
      · rw [hp]
      · rw [hp]
        exact hlt
  · have heq : r.count σ = r := by rw [Request.count, hc]
    rw [heq]
    exact .inr (.refl h)

/-- A rejected request makes no further count. -/
theorem count_of_rejected (h : r.rejected = true) : r.count σ = r := by
  unfold Request.rejected at h
  unfold Request.count
  split at h
  · next hc => rw [hc]
  · cases h

/-- Any number of counts, with nothing in between. -/
theorem counts_cases (h : r.Stands limits) (n : Nat) :
    ((Request.count σ)^[n] r).rejected = true ∨
      Counted limits σ.tables r ((Request.count σ)^[n] r) := by
  induction n with
  | zero => exact .inr (.refl h)
  | succ n ih =>
    rw [Function.iterate_succ_apply']
    rcases ih with hrej | hcounted
    · rw [count_of_rejected hrej]
      exact .inl hrej
    · exact (count_cases hcounted.stands).imp_right hcounted.trans

end Request

namespace Front

variable {cfg : Config} {limits : ContainmentLimits} {operatorUserId : Option String}
  {ok : Front → Prop} {φ φ' : Front}

/-- The requests in flight stand in their checks, and only the operator creates jobs without one. -/
structure Sound (cfg : Config) (limits : ContainmentLimits) (operatorUserId : Option String)
    (φ : Front) : Prop where
  reach : Sys.Reach cfg (fun _ _ => True) φ.sys
  requests : ∀ r ∈ φ.requests, r.Stands limits ∧ isOperator operatorUserId r.args.userId = false
  sessions : ∀ (i : Nat) (o : Open) now args, φ.sys.sessions[i]? = some (some o) →
    o.kind = .create now args → isOperator operatorUserId args.userId = true

namespace Sound

/-- A step of the system in which a creation, if one begins, is the operator's. -/
theorem sys {σ : Sys} {a : Act} (h : φ.Sound cfg limits operatorUserId)
    (hstep : φ.sys.step cfg a = some σ) {rs : List Request} (hrs : ∀ r ∈ rs, r ∈ φ.requests)
    (hstart : ∀ k at_, a = .start k at_ → a.creator.all (isOperator operatorUserId) = true) :
    Sound cfg limits operatorUserId ⟨σ, rs⟩ := by
  refine ⟨h.reach.step trivial hstep, fun r hr => h.requests r (hrs r hr), ?_⟩
  intro i o now args ho hk
  rcases Sys.step_kind hstep ho with ⟨o', ho', hk'⟩ | ⟨at_, rfl⟩
  · exact h.sessions i o' now args ho' (hk'.trans hk)
  · have := hstart _ _ rfl
    rwa [hk, Act.creator, Option.all_some] at this

theorem step (h : φ.Sound cfg limits operatorUserId) {a : FrontAct}
    (hstep : φ.step cfg limits operatorUserId a = some φ') : φ'.Sound cfg limits operatorUserId := by
  cases a with
  | begin_ args n =>
    simp only [Front.step] at hstep
    split at hstep
    · cases hstep
    · next hop =>
      cases hstep
      split
      · exact h
      · next hrej =>
        refine ⟨h.reach, fun r hr => ?_, h.sessions⟩
        rcases List.mem_append.mp hr with hr | hr
        · exact h.requests r hr
        · rw [List.mem_singleton.mp hr]
          have hc := (Request.counts_cases (.new args) (n + 1)).resolve_left hrej
          exact ⟨hc.stands, by rw [hc.args]; simpa [Request.new] using hop⟩
  | check i n =>
    simp only [Front.step] at hstep
    split at hstep
    · cases hstep
    · next r hr =>
      cases hstep
      refine ⟨h.reach, fun r' hr' => ?_, h.sessions⟩
      have hmem := h.requests r (List.mem_of_getElem? hr)
      simp only at hr'
      split at hr'
      · exact h.requests r' (List.mem_of_mem_eraseIdx hr')
      · next hrej =>
        rcases List.mem_or_eq_of_mem_set hr' with hr' | rfl
        · exact h.requests r' hr'
        · have hc := (Request.counts_cases hmem.1 n).resolve_left hrej
          exact ⟨hc.stands, by rw [hc.args]; exact hmem.2⟩
  | insert i now start pick =>
    simp only [Front.step] at hstep
    split at hstep
    · cases hstep
    · split at hstep
      · obtain ⟨σ, hσ, rfl⟩ := Option.map_eq_some_iff.mp hstep
        exact h.sys hσ (fun r hr => List.mem_of_mem_eraseIdx hr) fun _ _ heq => nomatch heq
      · cases hstep
  | leave i =>
    cases hstep
    exact ⟨h.reach, fun r hr => h.requests r (List.mem_of_mem_eraseIdx hr), h.sessions⟩
  | other a =>
    simp only [Front.step] at hstep
    split at hstep
    · next hcreator =>
      obtain ⟨σ, hσ, rfl⟩ := Option.map_eq_some_iff.mp hstep
      exact h.sys hσ (fun r hr => hr) fun _ _ _ => hcreator
    · cases hstep

end Sound

theorem Reach.sound (h : Reach cfg limits operatorUserId ok φ) :
    φ.Sound cfg limits operatorUserId := by
  induction h with
  | init => exact ⟨.init, by simp, by simp⟩
  | step _ hstep _ ih => exact ih.step hstep

/-! ### Charging the requests -/

/-- A cap: the jobs it counts, the users it is about, and which of the three counts is its own. -/
structure Cap (limits : ContainmentLimits) (operatorUserId : Option String) where
  counts : Job → Bool
  cls : String → Bool
  stage : Nat
  limit : Nat
  aging : ∀ a b : Job, a.Since b → counts b = true → counts a = true
  own : ∀ j, counts j = true → cls j.userId = true
  customers : ∀ u, isOperator operatorUserId u = true → cls u = false
  stage_pos : 1 ≤ stage
  stage_le : stage ≤ 3
  limit_pos : 1 ≤ limit
  under : ∀ u t, cls u = true → limits.Under u t stage → t.jobs.countP counts < limit

namespace Cap

variable (c : Cap limits operatorUserId)

/-- The requests that have passed the count of the cap. -/
def charged (r : Request) : Bool := c.cls r.args.userId && decide (c.stage ≤ r.passed)

/-- The jobs that the cap counts. -/
def load (t : Tables) : Nat := t.jobs.countP c.counts

theorem charged_le (φ : Front) : φ.requests.countP c.charged ≤ φ.inFlight c.cls := by
  refine List.countP_mono_left fun r _ hr => ?_
  simp only [charged, Bool.and_eq_true] at hr
  exact hr.1

/-- Jobs leave the count as they age, and a new one may enter it. -/
theorem load_step {t t' : Tables} {new : List Job}
    (h : List.Forall₂ Job.Since (t.jobs ++ new) t'.jobs) :
    c.load t' ≤ c.load t + new.countP c.counts := by
  have := pointwise_countP (p := c.counts) h fun hs hb => c.aging _ _ hs hb
  rwa [List.countP_append] at this

/-- The invariant: what the cap counts and what is charged to it stay below the limit and the
requests that run together. -/
def Bounded (K : Nat) (φ : Front) : Prop :=
  c.load φ.sys.tables + φ.requests.countP c.charged ≤ c.limit - 1 + K

/-- A request that passes the count finds room below the limit. -/
theorem bounded_of_under {K : Nat} (hK : φ'.inFlight c.cls ≤ K)
    (hload : c.load φ'.sys.tables < c.limit) : c.Bounded K φ' := by
  have := c.charged_le φ'
  have := c.limit_pos
  unfold Bounded
  omega

theorem step {K : Nat} (hφ : φ.Sound cfg limits operatorUserId) (h : c.Bounded K φ) {a : FrontAct}
    (hstep : φ.step cfg limits operatorUserId a = some φ') (hK : φ'.inFlight c.cls ≤ K) :
    c.Bounded K φ' := by
  have hstage := c.stage_pos
  cases a with
  | begin_ args n =>
    simp only [Front.step] at hstep
    split at hstep
    · cases hstep
    · cases hstep
      split at hK
      · next hrej =>
        rw [if_pos hrej]
        exact h
      · next hrej =>
        rw [if_neg hrej]
        have hc := (Request.counts_cases (.new args) (n + 1)).resolve_left hrej
        by_cases hch : c.charged ((Request.count φ.sys)^[n + 1] (.new limits args)) = true
        · simp only [charged, Bool.and_eq_true, decide_eq_true_eq] at hch
          rw [hc.args] at hch
          exact c.bounded_of_under hK (c.under _ _ hch.1 (hc.under c.stage hstage hch.2))
        · unfold Bounded
          rw [List.countP_append, List.countP_singleton, if_neg hch]
          exact h
  | check i n =>
    simp only [Front.step] at hstep
    split at hstep
    · cases hstep
    · next r hr =>
      cases hstep
      have hstands := (hφ.requests r (List.mem_of_getElem? hr)).1
      obtain ⟨hlt, hget⟩ := List.getElem?_eq_some_iff.mp hr
      split at hK
      · next hrej =>
        have := List.Sublist.countP_le (p := c.charged) (List.eraseIdx_sublist φ.requests i)
        unfold Bounded at h ⊢
        simp only [if_pos hrej]
        omega
      · next hrej =>
        have hc := (Request.counts_cases hstands n).resolve_left hrej
        simp only [if_neg hrej]
        by_cases hnew : c.charged r = false ∧ c.charged ((Request.count φ.sys)^[n] r) = true
        · obtain ⟨hold, hch⟩ := hnew
          simp only [charged, Bool.and_eq_true, decide_eq_true_eq] at hch
          simp only [charged, Bool.and_eq_false_iff, decide_eq_false_iff_not, not_le] at hold
          rw [hc.args] at hch
          have hbefore := hold.resolve_left (by simp [hch.1])
          exact c.bounded_of_under hK (c.under _ _ hch.1 (hc.under c.stage hbefore hch.2))
        · have hset := List.countP_set (p := c.charged) (a := (Request.count φ.sys)^[n] r) hlt
          rw [hget] at hset
          have hpos : c.charged r = true → 0 < φ.requests.countP c.charged := fun hr' =>
            List.countP_pos_iff.mpr ⟨r, List.mem_of_getElem? hr, hr'⟩
          unfold Bounded at h ⊢
          simp only [hset]
          by_cases hold : c.charged r = true
          · have := hpos hold
            rw [if_pos hold]
            split <;> omega
          · have hnot : ¬c.charged ((Request.count φ.sys)^[n] r) = true := fun hch =>
              hnew ⟨by simpa using hold, hch⟩
            rw [if_neg hold, if_neg hnot]
            omega
  | insert i now start pick =>
    simp only [Front.step] at hstep
    split at hstep
    · cases hstep
    · next r hr =>
      split at hstep
      · next hallowed =>
        obtain ⟨σ, hσ, rfl⟩ := Option.map_eq_some_iff.mp hstep
        have hstands := (hφ.requests r (List.mem_of_getElem? hr)).1
        have hpassed := hstands.passed_of_allowed hallowed
        obtain ⟨hlt, hget⟩ := List.getElem?_eq_some_iff.mp hr
        have herase := (List.getElem_cons_eraseIdx_perm hlt).countP_eq c.charged
        rw [List.countP_cons, hget] at herase
        obtain ⟨new, hjobs, hnew⟩ := Sys.step_jobs hφ.reach.interleaved hσ
        have hload := c.load_step hjobs
        unfold Bounded at h ⊢
        simp only
        rcases hnew with rfl | ⟨now', args, row, hk, rfl, huser⟩
        · rw [List.countP_nil] at hload
          omega
        · -- the job enters the count only if the request was charged for it
          simp only [Sys.commits, Option.some.injEq, Kind.create.injEq] at hk
          rw [List.countP_singleton] at hload
          by_cases hcounts : c.counts row = true
          · have hcls : c.cls r.args.userId = true := by
              have := c.own row hcounts
              rwa [huser, ← hk.2] at this
            have hch : c.charged r = true := by
              have := c.stage_le
              simp only [charged, hcls, hpassed, Bool.true_and, decide_eq_true_eq]
              exact this
            rw [if_pos hcounts] at hload
            rw [if_pos hch] at herase
            omega
          · rw [if_neg hcounts] at hload
            omega
      · cases hstep
  | leave i =>
    cases hstep
    have := List.Sublist.countP_le (p := c.charged) (List.eraseIdx_sublist φ.requests i)
    unfold Bounded at h ⊢
    simp only
    omega
  | other a =>
    simp only [Front.step] at hstep
    split at hstep
    · next hcreator =>
      obtain ⟨σ, hσ, rfl⟩ := Option.map_eq_some_iff.mp hstep
      obtain ⟨new, hjobs, hnew⟩ := Sys.step_jobs hφ.reach.interleaved hσ
      have hload := c.load_step hjobs
      have hnone : new.countP c.counts = 0 := by
        rcases hnew with rfl | ⟨now, args, row, hk, rfl, huser⟩
        · rfl
        · -- a job that is created without a request is the operator's
          have hop : isOperator operatorUserId args.userId = true := by
            cases a with
            | atomic k start pick =>
              simp only [Sys.commits, Option.some.injEq] at hk
              subst hk
              simpa [Act.creator] using hcreator
            | commit i =>
              obtain ⟨o, ho, hkind⟩ := Option.map_eq_some_iff.mp hk
              exact hφ.sessions i o now args (Option.join_eq_some_iff.mp ho) hkind
            | _ => cases hk
          refine List.countP_eq_zero.mpr fun j hj hcounts => ?_
          rw [List.mem_singleton.mp hj] at hcounts
          have hcls := c.own row hcounts
          rw [huser, c.customers _ hop] at hcls
          cases hcls
      unfold Bounded at h ⊢
      simp only
      omega
    · cases hstep

/-- In every state that is reached with at most `K` requests together, the cap is overshot by at
most `K - 1`. -/
theorem reach {K : Nat} (h : Reach cfg limits operatorUserId (fun φ => φ.inFlight c.cls ≤ K) φ) :
    c.load φ.sys.tables ≤ c.limit - 1 + K := by
  have hbounded : c.Bounded K φ := by
    induction h with
    | init =>
      have hzero : c.load ({} : Front).sys.tables = 0 := rfl
      unfold Bounded
      rw [hzero]
      exact Nat.zero_le _
    | step hreach hstep hok ih => exact c.step hreach.sound ih hstep hok
  exact (Nat.le_add_right _ _).trans hbounded

end Cap

/-! ### The three caps -/

theorem since_active {a b : Job} (h : a.Since b) (hb : b.state = .active) : a.state = .active := by
  rcases since_aging.state h with hs | hs
  · exact hs.trans hb
  · exact hs

theorem since_jobType {a b : Job} (h : a.Since b) : b.jobType = a.jobType := by
  rw [since_aging.sameDef h]

theorem Cap.one_le_one : 1 ≤ 1 := by decide

theorem Cap.one_le_three : 1 ≤ 3 := by decide

/-- The active jobs of a user. -/
def Cap.total {u : String} (hu : isOperator operatorUserId u = false)
    (hlimit : 1 ≤ limits.activeTotalPerUser) : Cap limits operatorUserId where
  counts j := j.userId == u && j.state == .active
  cls v := v == u
  stage := 2
  limit := limits.activeTotalPerUser
  aging a b h hb := by
    simp only [Bool.and_eq_true, beq_iff_eq] at hb ⊢
    exact ⟨h.userId ▸ hb.1, since_active h hb.2⟩
  own j hj := by
    simp only [Bool.and_eq_true] at hj
    exact hj.1
  customers v hv := by
    rw [beq_eq_false_iff_ne]
    rintro rfl
    rw [hu] at hv
    cases hv
  stage_pos := by decide
  stage_le := by decide
  limit_pos := hlimit
  under v t hv h := by
    rw [beq_iff_eq] at hv
    subst hv
    exact h

/-- The active recurring jobs of a user. -/
def Cap.recurring {u : String} (hu : isOperator operatorUserId u = false)
    (hlimit : 1 ≤ limits.activeRecurringPerUser) : Cap limits operatorUserId where
  counts j := j.userId == u && j.state == .active && j.jobType == .recurring
  cls v := v == u
  stage := 1
  limit := limits.activeRecurringPerUser
  aging a b h hb := by
    simp only [Bool.and_eq_true, beq_iff_eq] at hb ⊢
    exact ⟨⟨h.userId ▸ hb.1.1, since_active h hb.1.2⟩, since_jobType h ▸ hb.2⟩
  own j hj := by
    simp only [Bool.and_eq_true] at hj
    exact hj.1.1
  customers v hv := by
    rw [beq_eq_false_iff_ne]
    rintro rfl
    rw [hu] at hv
    cases hv
  stage_pos := Cap.one_le_one
  stage_le := Cap.one_le_three
  limit_pos := hlimit
  under v t hv h := by
    rw [beq_iff_eq] at hv
    subst hv
    exact h

/-- The active recurring jobs of all users but the operator.  The count of the code takes the
operator's jobs too, so that it leaves even less room. -/
def Cap.global (limits : ContainmentLimits) (operatorUserId : Option String)
    (hlimit : 1 ≤ limits.globalActiveRecurring) : Cap limits operatorUserId where
  counts j := !isOperator operatorUserId j.userId && j.state == .active && j.jobType == .recurring
  cls v := !isOperator operatorUserId v
  stage := 3
  limit := limits.globalActiveRecurring
  aging a b h hb := by
    simp only [Bool.and_eq_true, beq_iff_eq] at hb ⊢
    exact ⟨⟨h.userId ▸ hb.1.1, since_active h hb.1.2⟩, since_jobType h ▸ hb.2⟩
  own j hj := by
    simp only [Bool.and_eq_true] at hj
    exact hj.1.1
  customers v hv := by simp [hv]
  stage_pos := Cap.one_le_three
  stage_le := by decide
  limit_pos := hlimit
  under v t _ h := by
    refine lt_of_le_of_lt (List.countP_mono_left fun j _ hj => ?_) h
    simp only [Bool.and_eq_true] at hj ⊢
    exact ⟨hj.1.2, hj.2⟩

/-- The overshoot of every cap is bounded by the requests that run together: of the user for the
caps per user, and of all users but the operator for the global one. -/
theorem overshoot_bounded (cfg : Config) (limits : ContainmentLimits)
    (operatorUserId : Option String) (K : Nat) :
    (∀ u φ, isOperator operatorUserId u = false →
      Reach cfg limits operatorUserId (fun φ => φ.inFlight (· == u) ≤ K) φ →
      (1 ≤ limits.activeTotalPerUser → φ.active u ≤ limits.activeTotalPerUser - 1 + K) ∧
      (1 ≤ limits.activeRecurringPerUser →
        φ.activeRecurring (· == u) ≤ limits.activeRecurringPerUser - 1 + K)) ∧
    ∀ φ, 1 ≤ limits.globalActiveRecurring →
      Reach cfg limits operatorUserId
        (fun φ => φ.inFlight (fun v => !isOperator operatorUserId v) ≤ K) φ →
      φ.activeRecurring (fun v => !isOperator operatorUserId v) ≤
        limits.globalActiveRecurring - 1 + K := by
  refine ⟨fun u φ hu h => ⟨fun hlimit => ?_, fun hlimit => ?_⟩, fun φ hlimit h => ?_⟩
  · exact (Cap.total hu hlimit).reach h
  · exact (Cap.recurring hu hlimit).reach h
  · exact (Cap.global limits operatorUserId hlimit).reach h

/-- The listed steps, if each is possible and leads to a state that satisfies `ok`. -/
def runActs (cfg : Config) (limits : ContainmentLimits) (operatorUserId : Option String)
    (ok : Front → Bool) (φ : Front) : List FrontAct → Option Front
  | [] => some φ
  | a :: as => (φ.step cfg limits operatorUserId a).bind fun φ' =>
    if ok φ' then φ'.runActs cfg limits operatorUserId ok as else none

theorem Reach.runActs {okb : Front → Bool} {as : List FrontAct}
    (hreach : Reach cfg limits operatorUserId ok φ) (hok : ∀ φ, okb φ = true → ok φ)
    (h : φ.runActs cfg limits operatorUserId okb as = some φ') :
    Reach cfg limits operatorUserId ok φ' := by
  induction as generalizing φ with
  | nil =>
    cases h
    exact hreach
  | cons a as ih =>
    simp only [Front.runActs, Option.bind_eq_some_iff] at h
    obtain ⟨φ₁, hstep, hrest⟩ := h
    split at hrest
    · next hφ => exact ih (hreach.step hstep (hok φ₁ hφ)) hrest
    · cases hrest

/-- Two requests of one user that check before either has inserted. -/
def twoRequests : List FrontAct :=
  [.begin_ (.echo none none none) 0, .begin_ (.echo none none none) 2, .check 0 2,
    .insert 0 1 1 fun _ => true, .insert 0 2 2 fun _ => true]

theorem twoRequests_overshoot : ∃ φ,
    runActs .minutely ⟨5, 1, 500⟩ none (fun φ => decide (φ.inFlight (· == "alice") ≤ 2)) {}
      twoRequests = some φ ∧ φ.active "alice" = 2 ∧ φ.active "alice" ≤ 1 - 1 + 2 := by
  have hsome : (runActs .minutely ⟨5, 1, 500⟩ none
      (fun φ => decide (φ.inFlight (· == "alice") ≤ 2)) {} twoRequests).any
      (fun φ => φ.active "alice" == 2) = true := by decide +kernel
  obtain ⟨φ, hφ, hactive⟩ := (Option.any_eq_true _ _).mp hsome
  have hreach := Reach.runActs (.init : Reach .minutely ⟨5, 1, 500⟩ none
    (fun φ => φ.inFlight (· == "alice") ≤ 2) {}) (fun _ h => of_decide_eq_true h) hφ
  refine ⟨φ, hφ, by simpa using hactive, ?_⟩
  exact ((overshoot_bounded .minutely ⟨5, 1, 500⟩ none 2).1 "alice" φ rfl hreach).1 (by decide)

end Front

end TaskScheduler
