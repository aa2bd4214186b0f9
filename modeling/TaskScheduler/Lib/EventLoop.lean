import Mathlib.Algebra.Order.Ring.Int
import TaskScheduler.Lib.Program

/-! Tasks on one event loop.  A task runs alone until it sleeps or has to wait for the lock, and it is
cancelled only there.  A lock that is never held over a sleep is never waited for, so that the tasks
run as if there were no lock, from one sleep to the next at a time; what such a stretch does to the
shared state and to the place of the task is all that an invariant has to know. -/

namespace TaskScheduler.Lib

/-! ### Exceptions -/

namespace Program

variable {S : Type} {R : S → Type} {ε α β : Type}

/-- Goes on with the result or the exception of a program. -/
def settle : Program S R ε α → (Except ε α → Program S R ε β) → Program S R ε β
  | .ret a, f => f (.ok a)
  | .raise e, f => f (.error e)
  | .op s k, f => .op s fun r => (k r).settle f

/-- Returns the result, or raises the exception. -/
def ofExcept : Except ε α → Program S R ε α
  | .ok a => .ret a
  | .error e => .raise e

/-- `try: ... finally: ...` -/
def tryFinally (t : Program S R ε α) (last : Program S R ε Unit) : Program S R ε α :=
  t.settle fun res => last >>= fun _ => ofExcept res

end Program

/-! ### The loop -/

/-- What a task asks of its loop, over a shared state `σ`; a sleep has a place. -/
inductive Await (σ π : Type)
  | get
  | put (s : σ)
  | sleep (place : π)
  | acquire
  | release

/-- The answers: to a sleep and to an `acquire`, whether the task has been cancelled meanwhile; to a
`release`, whether the lock was held. -/
def Await.Reply {σ π : Type} : Await σ π → Type
  | .get => σ
  | .put _ => Unit
  | .sleep _ | .acquire | .release => Bool

/-- The coroutines of a loop. -/
abbrev Coroutine (σ π ε α : Type) := Program (Await σ π) Await.Reply ε α

/-- A task: not begun yet, asleep, waiting for the lock, or ended. -/
inductive Task (σ π ε α : Type)
  | ready (p : Coroutine σ π ε α)
  | sleeping (place : π) (k : Bool → Coroutine σ π ε α)
  | waiting (k : Bool → Coroutine σ π ε α)
  | done (res : Except ε α)

/-- The loop: the shared state, the lock with the tasks that wait for it in order, each with whether
it has been woken, and the tasks. -/
structure Loop (σ π ε α : Type) where
  shared : σ
  locked : Bool := false
  waiters : List (Nat × Bool) := []
  tasks : List (Task σ π ε α) := []

inductive LoopAct (σ π ε α : Type)
  | spawn (p : Coroutine σ π ε α)
  | resume (i : Nat)
  | cancel (i : Nat)

namespace Loop

variable {σ π ε α : Type}

def become (L : Loop σ π ε α) (i : Nat) (t : Task σ π ε α) : Loop σ π ε α :=
  { L with tasks := L.tasks.set i t }

/-- The first waiter is woken. -/
def wakeFirst : List (Nat × Bool) → List (Nat × Bool)
  | [] => []
  | (i, _) :: ws => (i, true) :: ws

/-- Task `i` runs until it sleeps, waits or ends.  The lock goes at once only to a task that finds it
free and no other task waiting. -/
def exec (i : Nat) : Coroutine σ π ε α → Loop σ π ε α → Loop σ π ε α
  | .ret a, L => L.become i (.done (.ok a))
  | .raise e, L => L.become i (.done (.error e))
  | .op .get k, L => exec i (k L.shared) L
  | .op (.put s) k, L => exec i (k ()) { L with shared := s }
  | .op (.sleep place) k, L => L.become i (.sleeping place k)
  | .op .acquire k, L =>
    if !L.locked && L.waiters.isEmpty then exec i (k false) { L with locked := true }
    else { L.become i (.waiting k) with waiters := L.waiters ++ [(i, false)] }
  | .op .release k, L =>
    if L.locked then exec i (k true) { L with locked := false, waiters := wakeFirst L.waiters }
    else exec i (k false) L

/-- One step, where it is possible.  A task that waits goes on once it has been woken; if it is
cancelled instead and the lock is free, it wakes the next one.  A task that is cancelled before it
has begun runs nothing, as if it had not been spawned. -/
def step (L : Loop σ π ε α) : LoopAct σ π ε α → Option (Loop σ π ε α)
  | .spawn p => some { L with tasks := L.tasks ++ [.ready p] }
  | .resume i =>
    match L.tasks[i]? with
    | some (.ready p) => some (L.exec i p)
    | some (.sleeping _ k) => some (L.exec i (k false))
    | some (.waiting k) =>
      if (i, true) ∈ L.waiters then
        some (exec i (k false)
          { L with locked := true, waiters := L.waiters.filter fun w => w.1 != i })
      else none
    | _ => none
  | .cancel i =>
    match L.tasks[i]? with
    | some (.sleeping _ k) => some (L.exec i (k true))
    | some (.waiting k) =>
      let ws := L.waiters.filter fun w => w.1 != i
      some (exec i (k true) { L with waiters := if L.locked then ws else wakeFirst ws })
    | _ => none

/-- The states that are reached from `s₀` with tasks of `P`. -/
inductive Reach (P : Coroutine σ π ε α → Prop) (s₀ : σ) : Loop σ π ε α → Prop
  | init : Reach P s₀ { shared := s₀ }
  | step {L L' : Loop σ π ε α} {a : LoopAct σ π ε α} : Reach P s₀ L →
    (∀ p, a = .spawn p → P p) → L.step a = some L' → Reach P s₀ L'

/-- Steps one after the other; a step that is not possible is left out. -/
def run (L : Loop σ π ε α) (acts : List (LoopAct σ π ε α)) : Loop σ π ε α :=
  acts.foldl (fun L a => (L.step a).getD L) L

theorem Reach.run {P : Coroutine σ π ε α → Prop} {s₀ : σ} {L : Loop σ π ε α} (h : Reach P s₀ L)
    {acts : List (LoopAct σ π ε α)} (hacts : ∀ p, .spawn p ∈ acts → P p) :
    Reach P s₀ (L.run acts) := by
  induction acts generalizing L with
  | nil => exact h
  | cons a as ih =>
    refine ih (L := (L.step a).getD L) ?_ fun p hp => hacts p (List.mem_cons_of_mem _ hp)
    cases hstep : L.step a with
    | none => exact h
    | some L' => exact h.step (fun p hp => hacts p (hp ▸ List.mem_cons_self)) hstep

end Loop

/-! ### A lock that is not held over a sleep -/

/-- A stretch of a coroutine, from a sleep or the beginning: its place and the shared state there, the
shared state now, and whether the coroutine holds the lock. -/
structure Stretch (σ π : Type) where
  place : Option π
  before : σ
  now : σ
  held : Bool

/-- The stretch that begins at a place. -/
def Stretch.at_ {σ π : Type} (place : Option π) (s : σ) : Stretch σ π := ⟨place, s, s, false⟩

/-- What a stretch may do, up to a sleep or to the end. -/
structure Contract (σ π ε α : Type) where
  sleeps : Option π → σ → π → σ → Prop
  ends : Option π → σ → Except ε α → σ → Prop

namespace Coroutine

variable {σ π ε α β : Type} {T : Option π → σ → π → σ → Prop}

/-- The coroutine goes on from the stretch `x` with stretches of `T`, ends with `Q`, and holds the lock
over no sleep and once at a time. -/
def wp (T : Option π → σ → π → σ → Prop) (Q : Except ε α → Stretch σ π → Prop) :
    Coroutine σ π ε α → Stretch σ π → Prop
  | .ret a, x => Q (.ok a) x
  | .raise e, x => Q (.error e) x
  | .op .get k, x => wp T Q (k x.now) x
  | .op (.put s) k, x => wp T Q (k ()) { x with now := s }
  | .op (.sleep place) k, x => x.held = false ∧ T x.place x.before place x.now ∧
    ∀ r s, wp T Q (k r) (.at_ (some place) s)
  | .op .acquire k, x => x.held = false ∧ wp T Q (k false) { x with held := true }
  | .op .release k, x => x.held = true ∧ wp T Q (k true) { x with held := false }

theorem wp_mono {Q Q' : Except ε α → Stretch σ π → Prop} {t : Coroutine σ π ε α} {x : Stretch σ π}
    (h : wp T Q t x) (hQ : ∀ res y, Q res y → Q' res y) : wp T Q' t x := by
  induction t generalizing x with
  | ret a | raise e => exact hQ _ _ h
  | op s k ih =>
    cases s with
    | get | put s => exact ih _ h
    | sleep place => exact ⟨h.1, h.2.1, fun r s => ih r (h.2.2 r s)⟩
    | acquire | release => exact ⟨h.1, ih _ h.2⟩

theorem wp_settle {Q : Except ε β → Stretch σ π → Prop} {t : Coroutine σ π ε α}
    {f : Except ε α → Coroutine σ π ε β} {x : Stretch σ π}
    (h : wp T (fun res y => wp T Q (f res) y) t x) : wp T Q (t.settle f) x := by
  induction t generalizing x with
  | ret a | raise e => exact h
  | op s k ih =>
    cases s with
    | get | put s => exact ih _ h
    | sleep place => exact ⟨h.1, h.2.1, fun r s => ih r (h.2.2 r s)⟩
    | acquire | release => exact ⟨h.1, ih _ h.2⟩

theorem wp_bind {Q : Except ε β → Stretch σ π → Prop} {t : Coroutine σ π ε α}
    {f : α → Coroutine σ π ε β} {x : Stretch σ π}
    (h : wp T (fun res y => match res with
      | .ok a => wp T Q (f a) y
      | .error e => Q (.error e) y) t x) : wp T Q (t >>= f) x := by
  induction t generalizing x with
  | ret a | raise e => exact h
  | op s k ih =>
    cases s with
    | get | put s => exact ih _ h
    | sleep place => exact ⟨h.1, h.2.1, fun r s => ih r (h.2.2 r s)⟩
    | acquire | release => exact ⟨h.1, ih _ h.2⟩

end Coroutine

namespace Contract

variable {σ π ε α : Type} (C : Contract σ π ε α)

/-- The coroutine keeps to the contract from the stretch `x` on. -/
def Holds (p : Coroutine σ π ε α) (x : Stretch σ π) : Prop :=
  p.wp C.sleeps (fun res y => y.held = false ∧ C.ends y.place y.before res y.now) x

/-- The task keeps to the contract from where it is on, and does not wait for the lock. -/
def Kept : Task σ π ε α → Prop
  | .ready p => ∀ s, C.Holds p (.at_ none s)
  | .sleeping place k => ∀ r s, C.Holds (k r) (.at_ (some place) s)
  | .waiting _ => False
  | .done _ => True

/-- The stretch leads to the task, over the shared state `s`. -/
def Leads (place : Option π) (before : σ) (s : σ) : Task σ π ε α → Prop
  | .sleeping place' _ => C.sleeps place before place' s
  | .done res => C.ends place before res s
  | _ => False

end Contract

/-- The place of a task that sleeps. -/
def Task.place {σ π ε α : Type} : Task σ π ε α → Option π
  | .sleeping place _ => some place
  | _ => none

namespace Loop

variable {σ π ε α : Type} {C : Contract σ π ε α} {L L' : Loop σ π ε α}

/-- The lock is free, no task waits for it, and every task keeps to the contract. -/
structure Free (C : Contract σ π ε α) (L : Loop σ π ε α) : Prop where
  locked : L.locked = false
  waiters : L.waiters = []
  tasks : ∀ t ∈ L.tasks, C.Kept t

/-- A task runs up to its next sleep as if it had no lock to take. -/
theorem exec_leads {i : Nat} {p : Coroutine σ π ε α} {x : Stretch σ π} (h : C.Holds p x)
    (hnow : x.now = L.shared) (hheld : x.held = L.locked) (hws : L.waiters = []) :
    ∃ t, (L.exec i p).tasks = L.tasks.set i t ∧ C.Kept t ∧
      C.Leads x.place x.before (L.exec i p).shared t ∧ (L.exec i p).locked = false ∧
      (L.exec i p).waiters = [] := by
  induction p generalizing x L with
  | ret a =>
    refine ⟨.done (.ok a), rfl, trivial, ?_, ?_, hws⟩
    · exact hnow ▸ h.2
    · exact hheld.symm.trans h.1
  | raise e =>
    refine ⟨.done (.error e), rfl, trivial, ?_, ?_, hws⟩
    · exact hnow ▸ h.2
    · exact hheld.symm.trans h.1
  | op s k ih =>
    cases s with
    | get =>
      rw [show L.exec i (.op .get k) = L.exec i (k L.shared) from rfl]
      exact ih L.shared (hnow ▸ h) hnow hheld hws
    | put s => exact ih () (x := { x with now := s }) h rfl hheld hws
    | sleep place =>
      refine ⟨.sleeping place k, rfl, h.2.2, ?_, ?_, hws⟩
      · exact hnow ▸ h.2.1
      · exact hheld.symm.trans h.1
    | acquire =>
      have hfree : (!L.locked && L.waiters.isEmpty) = true := by
        rw [← hheld, h.1, hws]
        rfl
      simp only [exec, hfree, if_true]
      exact ih false (x := { x with held := true }) h.2 hnow rfl hws
    | release =>
      have hlocked : L.locked = true := hheld.symm.trans h.1
      simp only [exec, hlocked, if_true]
      exact ih true (x := { x with held := false }) h.2 hnow rfl (by simp [hws, wakeFirst])

/-- What a step does: it adds a task that has not begun, or a stretch leads one task on. -/
inductive Moved (C : Contract σ π ε α) (L L' : Loop σ π ε α) : Prop
  | spawned (p : Coroutine σ π ε α) (hshared : L'.shared = L.shared)
      (htasks : L'.tasks = L.tasks ++ [.ready p])
  | led (i : Nat) (t t' : Task σ π ε α) (ht : L.tasks[i]? = some t)
      (htasks : L'.tasks = L.tasks.set i t') (hleads : C.Leads t.place L.shared L'.shared t')

/-- A task after a move is the one before it, has not begun, or is where a stretch has led. -/
theorem Moved.task (h : Moved C L L') {i : Nat} {t' : Task σ π ε α} (ht' : L'.tasks[i]? = some t') :
    L.tasks[i]? = some t' ∨ (∃ p, t' = .ready p) ∨
      ∃ t, L.tasks[i]? = some t ∧ C.Leads t.place L.shared L'.shared t' := by
  cases h with
  | spawned p hshared htasks =>
    rw [htasks] at ht'
    rcases Nat.lt_or_ge i L.tasks.length with hlt | hge
    · rw [List.getElem?_append_left hlt] at ht'
      exact .inl ht'
    · rw [List.getElem?_append_right hge] at ht'
      exact .inr (.inl ⟨p, List.mem_singleton.mp (List.mem_of_getElem? ht')⟩)
  | led j t u ht htasks hleads =>
    rw [htasks] at ht'
    by_cases hji : j = i
    · subst hji
      rw [List.getElem?_set_self (List.getElem?_eq_some_iff.mp ht).1] at ht'
      obtain rfl := Option.some.inj ht'
      exact .inr (.inr ⟨t, ht, hleads⟩)
    · rw [List.getElem?_set_ne hji] at ht'
      exact .inl ht'

theorem Free.step (h : L.Free C) {a : LoopAct σ π ε α}
    (ha : ∀ p, a = .spawn p → ∀ s, C.Holds p (.at_ none s)) (hstep : L.step a = some L') :
    L'.Free C ∧ Moved C L L' := by
  have hexec : ∀ {i : Nat} {t : Task σ π ε α} {p : Coroutine σ π ε α}, L.tasks[i]? = some t →
      C.Holds p (.at_ t.place L.shared) → (L.exec i p).Free C ∧ Moved C L (L.exec i p) := by
    intro i t p ht hp
    obtain ⟨t', htasks, hkept, hleads, hlocked, hws⟩ := exec_leads (L := L) (i := i) hp rfl
      h.locked.symm h.waiters
    refine ⟨⟨hlocked, hws, fun u hu => ?_⟩, .led i t t' ht htasks hleads⟩
    rw [htasks] at hu
    rcases List.mem_or_eq_of_mem_set hu with hu | rfl
    · exact h.tasks u hu
    · exact hkept
  cases a with
  | spawn p =>
    cases hstep
    refine ⟨⟨h.locked, h.waiters, fun u hu => ?_⟩, .spawned p rfl rfl⟩
    rcases List.mem_append.mp hu with hu | hu
    · exact h.tasks u hu
    · rw [List.mem_singleton.mp hu]
      exact ha p rfl
  | resume i =>
    simp only [Loop.step] at hstep
    split at hstep
    · next p ht =>
      cases hstep
      exact hexec ht (h.tasks _ (List.mem_of_getElem? ht) L.shared)
    · next place k ht =>
      cases hstep
      exact hexec ht (h.tasks _ (List.mem_of_getElem? ht) false L.shared)
    · next k ht => exact (h.tasks _ (List.mem_of_getElem? ht)).elim
    · cases hstep
  | cancel i =>
    simp only [Loop.step] at hstep
    split at hstep
    · next place k ht =>
      cases hstep
      exact hexec ht (h.tasks _ (List.mem_of_getElem? ht) true L.shared)
    · next k ht => exact (h.tasks _ (List.mem_of_getElem? ht)).elim
    · cases hstep

/-- In every state that is reached, the lock is free and every task keeps to the contract. -/
theorem Reach.free {P : Coroutine σ π ε α → Prop} {s₀ : σ}
    (hP : ∀ p, P p → ∀ s, C.Holds p (.at_ none s)) (h : Reach P s₀ L) : L.Free C := by
  induction h with
  | init => exact ⟨rfl, rfl, fun t ht => by cases ht⟩
  | step _ hok hstep ih => exact (ih.step (fun p hp => hP p (hok p hp)) hstep).1

/-- An invariant of the moves is one of the states that are reached. -/
theorem Reach.invariant {P : Coroutine σ π ε α → Prop} {s₀ : σ}
    (hP : ∀ p, P p → ∀ s, C.Holds p (.at_ none s)) {I : Loop σ π ε α → Prop}
    (init : I { shared := s₀ }) (move : ∀ L L', I L → Moved C L L' → I L') (h : Reach P s₀ L) :
    I L := by
  induction h with
  | init => exact init
  | step hreach hok hstep ih =>
    exact move _ _ ih ((hreach.free hP).step (fun p hp => hP p (hok p hp)) hstep).2

theorem sum_map_set {t t' : Task σ π ε α} (w : Task σ π ε α → Int) {ts : List (Task σ π ε α)} {i : Nat}
    (h : ts[i]? = some t) : ((ts.set i t').map w).sum = (ts.map w).sum - w t + w t' := by
  induction ts generalizing i with
  | nil => simp at h
  | cons u us ih =>
    cases i with
    | zero =>
      obtain rfl : u = t := by simpa using h
      simp only [List.set_cons_zero, List.map_cons, List.sum_cons]
      omega
    | succ i =>
      have hus := ih (i := i) (by simpa using h)
      simp only [List.set_cons_succ, List.map_cons, List.sum_cons]
      omega

/-- A counter that every stretch moves by what the weight of the place changes is the sum of the
weights. -/
theorem Reach.tally {P : Coroutine Int π ε α → Prop} {C : Contract Int π ε α} {s₀ : Int}
    {w : Option π → Int} {L : Loop Int π ε α} (hP : ∀ p, P p → ∀ s, C.Holds p (.at_ none s))
    (hnone : w none = 0)
    (hsleeps : ∀ place s place' s', C.sleeps place s place' s' → s' = s + w (some place') - w place)
    (hends : ∀ place s res s', C.ends place s res s' → s' = s - w place) (h : Reach P s₀ L) :
    L.shared = s₀ + (L.tasks.map fun t => w t.place).sum := by
  refine h.invariant (I := fun L => L.shared = s₀ + (L.tasks.map fun t => w t.place).sum) hP
    (by simp) fun L L' hL hmoved => ?_
  cases hmoved with
  | spawned p hshared htasks =>
    rw [hshared, hL, htasks]
    simp [Task.place, hnone]
  | led i t t' ht htasks hleads =>
    rw [htasks, sum_map_set (fun t => w t.place) ht]
    cases t' with
    | ready p | waiting k => exact hleads.elim
    | sleeping place k =>
      have hshared := hsleeps _ _ _ _ hleads
      show L'.shared = s₀ + (_ - w t.place + w (some place))
      omega
    | done res =>
      have hshared := hends _ _ _ _ hleads
      show L'.shared = s₀ + (_ - w t.place + w none)
      omega

end Loop

end TaskScheduler.Lib
