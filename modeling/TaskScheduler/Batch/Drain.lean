import TaskScheduler.Batch.Queue
import TaskScheduler.Ledger.Atomic

/-! Calls of `poll_once` with no other transaction open.  Where no event raises, the calls that drain
the queue leave the same database whatever their batch size is. -/

namespace TaskScheduler

open Lib

/-- The database of a state that the system reaches. -/
theorem Sys.Reach.keyed {cfg : Config} {σ : Sys} (hreach : Sys.Reach cfg Sys.AtomicOk σ) :
    (⟨σ.tables, σ.seq⟩ : Db).Keyed :=
  (hreach.changes (fun _ _ h => h) (fun _ => True) (fun _ _ _ _ _ => trivial) (fun _ => True)
    trivial fun _ _ _ _ _ _ _ => trivial).1.coherent.keyed

namespace Db

/-- One call of `poll_once`, at the clock readings `now` of the process and `start` of the
database. -/
def poll (cfg : Config) (batchSize : Nat) (now start : Int) (pick : Nat → Bool) (x : Db) :
    Option (Except Err Nat × Db) :=
  x.alone start pick (pollOnce cfg.libs now cfg.depth batchSize)

variable {cfg : Config} {n : Nat} {now start : Int} {pick : Nat → Bool} {x y z : Db}

/-- What a transaction that is alone comes to, when it computes `f`. -/
inductive Ran {α : Type} (x : Db) (f : Except Err (α × Db)) : Option (Except Err α × Db) → Prop
  | ok {a : α} {y : Db} (h : f = .ok (a, y)) : Ran x f (some (.ok a, y))
  | error {err : Err} {seq : Seq} (h : f = .error err) (hseq : x.seq.le seq) :
    Ran x f (some (.error err, { x with seq := seq }))

theorem alone_ran {α : Type} {t : Txn α} {f : Except Err (α × Db)} (hx : x.Keyed)
    (hwp : t.wp (rowAccount Job.SettledTo pick start) (fun err _ => f = .error err)
      (fun a v => ∃ y : Db, f = .ok (a, y) ∧ v = y.view) x.view) :
    Ran x f (x.alone start pick t) := by
  obtain ⟨⟨res, seq, ses⟩, hrun⟩ := Option.isSome_iff_exists.mp
    (run_isSome pick x.tables t (x.seq, { start }))
  obtain ⟨v', htab, hseq, hend⟩ := run_atomic settledTo_aging hx.jobs hwp hrun
  unfold alone
  rw [hrun]
  cases res with
  | ok a =>
    obtain ⟨y, hy, rfl⟩ := hend
    have hy' : (⟨ses.view x.tables, seq⟩ : Db) = y := by
      rw [← htab, ← hseq]
      rfl
    dsimp only
    rw [hy']
    exact .ok hy
  | error err => exact .error hend (run_seq_le _ _ hrun)

/-- A call computes the bodies of its batch: all of them, or none where one raises. -/
theorem poll_ran (cfg : Config) (n : Nat) (now start : Int) (pick : Nat → Bool) (hx : x.Keyed) :
    Ran x ((x.bodies cfg.libs now start cfg.depth (x.tables.batch n)).map fun y =>
      ((x.tables.batch n).length, y)) (x.poll cfg n now start pick) := by
  refine alone_ran hx ?_
  unfold pollOnce
  simp only [Program.wp_bind, wp_selectEvents]
  exact wp_bodies _ hx.jobs.nodup (fun y hy => ⟨y, congrArg (Except.map _) hy, rfl⟩)
    fun err v' h => congrArg (Except.map _) h

/-! ### Calls until nothing is left -/

/-- `y` is reached from `x` by calls that return. -/
inductive Called (cfg : Config) (n : Nat) (x : Db) : Db → Prop
  | refl : Called cfg n x x
  | call {y z : Db} {k : Nat} {now start : Int} {pick : Nat → Bool} (hs : Called cfg n x y)
      (h : y.poll cfg n now start pick = some (.ok k, z)) : Called cfg n x z

/-- Calls until one returns 0. -/
inductive Drained (cfg : Config) (n : Nat) : Db → Db → Prop
  | last {x y : Db} {now start : Int} {pick : Nat → Bool}
      (h : x.poll cfg n now start pick = some (.ok 0, y)) : Drained cfg n x y
  | more {x y z : Db} {k : Nat} {now start : Int} {pick : Nat → Bool}
      (h : x.poll cfg n now start pick = some (.ok (k + 1), y)) (hs : Drained cfg n y z) :
      Drained cfg n x z

/-- No call raises, whatever the clocks say. -/
def Quiet (cfg : Config) (n : Nat) (x : Db) : Prop :=
  ∀ y, Called cfg n x y → ∀ now start pick err z, y.poll cfg n now start pick ≠ some (.error err, z)

/-- The bodies of the whole queue lead to `w`, up to stamp times. -/
def Clears (cfg : Config) (x w : Db) : Prop :=
  x.erase.bodies cfg.libs 0 0 cfg.depth x.tables.queue = .ok w

/-- A call on a queue whose bodies all end takes the first events off it. -/
theorem Clears.poll {w : Db} (h : x.Clears cfg w) (hx : x.Keyed)
    {r : Option (Except Err Nat × Db)} (hr : x.poll cfg n now start pick = r) :
    ∃ y, r = some (.ok (x.tables.queue.take n).length, y) ∧ y.Keyed ∧
      y.tables.queue = x.tables.queue.drop n ∧ y.Clears cfg w ∧
      x.erase.bodies cfg.libs 0 0 cfg.depth (x.tables.queue.take n) = .ok y.erase := by
  have hsplit := (List.take_append_drop n x.tables.queue).symm
  unfold Clears at h
  rw [hsplit] at h
  obtain ⟨s, hs, hrest⟩ := foldlM_append_ok.mp h
  have hbatch : x.erase.bodies cfg.libs 0 0 cfg.depth (x.tables.batch n) = .ok s := hs
  have hran := poll_ran cfg n now start pick hx
  rw [← bodies_erase cfg.libs now start] at hbatch
  rw [hr] at hran
  cases hy : x.bodies cfg.libs now start cfg.depth (x.tables.batch n) with
  | ok y =>
    rw [hy] at hbatch hran
    cases hbatch
    cases hran with
    | error herr _ => cases herr
    | ok h =>
      cases h
      obtain ⟨hk, hq⟩ := bodies_queue hx hsplit hy
      refine ⟨y, rfl, hk, hq, ?_, hs⟩
      unfold Clears
      rw [hq]
      exact hrest
  | error err =>
    rw [hy] at hbatch
    cases hbatch

theorem Clears.called {w : Db} (h : x.Clears cfg w) (hx : x.Keyed) (hc : Called cfg n x y) :
    y.Keyed ∧ y.Clears cfg w := by
  induction hc with
  | refl => exact ⟨hx, h⟩
  | call hs hcall ih =>
    obtain ⟨y', hy', hk, -, hw, -⟩ := ih.2.poll ih.1 hcall
    cases hy'
    exact ⟨hk, hw⟩

theorem Clears.quiet {w : Db} (h : x.Clears cfg w) (hx : x.Keyed) : Quiet cfg n x := by
  intro y hc now start pick err z hcall
  obtain ⟨hk, hw⟩ := h.called hx hc
  obtain ⟨y', hy', -⟩ := hw.poll hk hcall
  cases hy'

theorem Clears.drained_eq {w : Db} (hn : 0 < n) (h : x.Clears cfg w) (hx : x.Keyed)
    (hd : Drained cfg n x y) : y.erase = w := by
  induction hd with
  | last hcall =>
    obtain ⟨y', hy', -, -, hw, hbatch⟩ := h.poll hx hcall
    simp only [Option.some.injEq, Prod.mk.injEq, Except.ok.injEq] at hy'
    obtain ⟨hlen, rfl⟩ := hy'
    -- an empty batch means an empty queue
    have hnil := List.eq_nil_of_length_eq_zero hlen.symm
    have hqueue := (List.take_eq_nil_iff.mp hnil).resolve_left (by omega)
    unfold Clears at h
    rw [hnil] at hbatch
    rw [hqueue, hbatch] at h
    cases h
    rfl
  | more hcall _ ih =>
    obtain ⟨y', hy', hk, -, hw, -⟩ := h.poll hx hcall
    simp only [Option.some.injEq, Prod.mk.injEq] at hy'
    obtain ⟨-, rfl⟩ := hy'
    exact ih hw hk

theorem Clears.drained {w : Db} (hn : 0 < n) (h : x.Clears cfg w) (hx : x.Keyed) :
    ∃ y, Drained cfg n x y := by
  obtain ⟨m, hm⟩ : ∃ m, x.tables.queue.length = m := ⟨_, rfl⟩
  induction m using Nat.strongRecOn generalizing x with
  | ind m ih =>
    have hpoll : x.poll cfg n 0 0 (fun _ => true) = x.poll cfg n 0 0 fun _ => true := rfl
    obtain ⟨y, hy, hk, hq, hw, -⟩ := h.poll hx hpoll
    cases hl : (x.tables.queue.take n).length with
    | zero =>
      rw [hl] at hy
      exact ⟨y, .last hy⟩
    | succ k =>
      rw [hl] at hy
      rw [List.length_take] at hl
      obtain ⟨z, hz⟩ := ih _ (by rw [hq, List.length_drop]; omega) hw hk rfl
      exact ⟨z, .more hy hz⟩

/-- Calls one by one that never raise go through the whole queue. -/
theorem Quiet.clears (h : Quiet cfg 1 x) (hx : x.Keyed) : ∃ w, x.Clears cfg w := by
  obtain ⟨q, hq⟩ : ∃ q, x.tables.queue = q := ⟨_, rfl⟩
  induction q generalizing x with
  | nil => exact ⟨x.erase, by rw [Clears, hq]; rfl⟩
  | cons e es ih =>
    have hran := poll_ran cfg 1 0 0 (fun _ => true) hx
    have hbatch : x.tables.batch 1 = [e] := by rw [Tables.batch_eq, hq]; rfl
    rw [hbatch] at hran
    generalize hr : x.poll cfg 1 0 0 (fun _ => true) = r at hran
    cases hran with
    | @ok k y hmap =>
      have hy : x.bodies cfg.libs 0 0 cfg.depth [e] = .ok y := by
        revert hmap
        cases x.bodies cfg.libs 0 0 cfg.depth [e] with
        | error err => exact fun h => nomatch h
        | ok y' =>
          intro h
          cases h
          rfl
      obtain ⟨hk, hqy⟩ := bodies_queue hx hq hy
      have hy' : Quiet cfg 1 y := by
        intro z hz
        refine h z ?_
        clear h
        induction hz with
        | refl => exact .call .refl hr
        | call _ hcall ih => exact .call ih hcall
      obtain ⟨w, hw⟩ := ih hy' hk hqy
      refine ⟨w, ?_⟩
      unfold Clears at hw ⊢
      rw [hqy] at hw
      rw [hq, ← List.singleton_append]
      refine foldlM_append_ok.mpr ⟨y.erase, ?_, hw⟩
      have hone := bodies_erase cfg.libs 0 0 cfg.depth [e] x
      rw [hy] at hone
      exact hone.symm
    | error herr _ => exact absurd hr (h x .refl _ _ _ _ _)

/-- Batching is unobservable: where no event raises, the calls with any batch size end, none of them
raises, and what they leave differs from what the calls one by one leave in stamp times only. -/
theorem batching_unobservable (hx : x.Keyed) (hn : 0 < n) (h : Quiet cfg 1 x) :
    (Quiet cfg n x ∧ (∃ y, Drained cfg n x y) ∧ ∃ z, Drained cfg 1 x z) ∧
      ∀ y z, Drained cfg n x y → Drained cfg 1 x z → y.erase = z.erase := by
  obtain ⟨w, hw⟩ := h.clears hx
  refine ⟨⟨hw.quiet hx, hw.drained hn hx, hw.drained Nat.one_pos hx⟩, fun y z hy hz => ?_⟩
  rw [hw.drained_eq hn hx hy, hw.drained_eq Nat.one_pos hx hz]

/-- A recurring job and the job that it triggers have both ended a run that the consumer created, so
that a batch of two holds the event of the trigger and the event of its downstream. -/
def pairRun : List Act :=
  [.at 0 (.create 0 (.echo (some "* * * * *") none none)),
    .at 1 (.create 1 (.echo none (some 1) (some "ANY"))),
    .at 2 (.publish 2 10), .at 3 (.claim 3 1 1), .at 4 (.finish 4 1 1 .success),
    .at 5 (.poll 5 10), .at 6 (.publish 6 10),
    .at 7 (.claim 7 2 1), .at 8 (.finish 8 2 1 .success),
    .at 9 (.claim 9 3 2), .at 10 (.finish 10 3 2 .success)]

theorem pairRun_unobservable : ∃ σ x, Sys.runActs .minutely {} pairRun = some σ ∧
    x = ⟨σ.tables, σ.seq⟩ ∧ x.tables.queue.length = 2 ∧
    (∃ y, Drained .minutely 2 x y) ∧
      ∀ y z, Drained .minutely 2 x y → Drained .minutely 1 x z → y.erase = z.erase := by
  have hsome : (Sys.runActs .minutely {} pairRun).isSome = true := by decide +kernel
  obtain ⟨σ, hσ⟩ := Option.isSome_iff_exists.mp hsome
  have hclears : (Sys.runActs .minutely {} pairRun).all (fun σ =>
      decide (σ.tables.queue.length = 2) &&
        ((⟨σ.tables, σ.seq⟩ : Db).erase.bodies Config.minutely.libs 0 0 1000 σ.tables.queue).isOk) =
      true := by decide +kernel
  rw [hσ, Option.all_some, Bool.and_eq_true, decide_eq_true_eq] at hclears
  have hkeyed : (⟨σ.tables, σ.seq⟩ : Db).Keyed := by
    refine @Sys.Reach.keyed .minutely _ (Sys.Reach.init.runActs (fun τ a ha => ?_) hσ)
    simp only [pairRun, List.mem_cons, List.not_mem_nil, or_false] at ha
    rcases ha with rfl | rfl | rfl | rfl | rfl | rfl | rfl | rfl | rfl | rfl | rfl <;> trivial
  obtain ⟨w, hw⟩ : ∃ w, Clears .minutely ⟨σ.tables, σ.seq⟩ w := by
    unfold Clears
    have hok := hclears.2
    cases hw : (⟨σ.tables, σ.seq⟩ : Db).erase.bodies Config.minutely.libs 0 0 1000
        σ.tables.queue with
    | error err =>
      rw [hw] at hok
      cases hok
    | ok w => exact ⟨w, hw⟩
  have h := batching_unobservable hkeyed (n := 2) (by decide) (hw.quiet hkeyed)
  exact ⟨σ, _, hσ, rfl, hclears.1, h.1.2.1, h.2⟩

end Db

end TaskScheduler
