import TaskScheduler.Db.Account
import TaskScheduler.Lib.Issues

/-! The database between transactions, and a transaction that no other one is open beside. -/

namespace TaskScheduler

open Lib

/-- The database between transactions. -/
structure Db where
  tables : Tables := {}
  seq : Seq := {}
  deriving DecidableEq, Repr

/-- With no other session open, no statement waits. -/
theorem exec_isSome (pick : Nat → Bool) (committed : Tables) (s : Stmt) (d : Seq × Session) :
    (s.exec pick [] committed d).isSome = true := by
  obtain ⟨seq, ses⟩ := d
  cases s with
  | insertJob row =>
    simp only [Stmt.exec, List.any_nil, Bool.false_eq_true, if_false]
    split <;> rfl
  | insertRun row =>
    simp only [Stmt.exec, List.any_nil, Bool.false_eq_true, if_false]
    split <;> rfl
  | rollbackTo =>
    simp only [Stmt.exec]
    split <;> rfl
  | _ => rfl

theorem run_isSome {α : Type} (pick : Nat → Bool) (committed : Tables) (t : Txn α)
    (d : Seq × Session) : (t.run (Stmt.exec pick [] committed) d).isSome = true := by
  induction t generalizing d with
  | ret a => rfl
  | raise e => rfl
  | op s k ih =>
    obtain ⟨r, hr⟩ := Option.isSome_iff_exists.mp (exec_isSome pick committed s d)
    simp only [Program.run, hr, Option.bind_some]
    exact ih r.1 r.2

namespace Db

/-- A transaction with no other one open: its end, and the database after it. -/
def alone {α : Type} (start : Int) (pick : Nat → Bool) (t : Txn α) (x : Db) :
    Option (Except Err α × Db) :=
  match t.run (Stmt.exec pick [] x.tables) (x.seq, { start }) with
  | none => none
  | some (.ok a, seq, ses) => some (.ok a, ⟨ses.view x.tables, seq⟩)
  | some (.error e, seq, _) => some (.error e, { x with seq := seq })

variable {α β : Type} {start : Int} {pick : Nat → Bool} {x y : Db}

/-- A transaction ends as its weakest precondition says; one that raises leaves the tables. -/
theorem alone_cases {older : Job → Job → Prop} (aging : Aging older) {t : Txn α}
    {E : Err → View → Prop} {Q : α → Tables → Prop} (keys : JobKeys x.tables.jobs x.seq.jobs)
    (hwp : t.wp (rowAccount older pick start) E (fun a v => Q a v.tables)
      ⟨x.tables, x.seq, none⟩) : ∃ res y, x.alone start pick t = some (res, y) ∧
      ((∃ a, res = .ok a ∧ Q a y.tables) ∨ ∃ e v, res = .error e ∧ E e v ∧ y.tables = x.tables) := by
  obtain ⟨⟨res, seq, ses⟩, hrun⟩ := Option.isSome_iff_exists.mp
    (run_isSome pick x.tables t (x.seq, { start }))
  obtain ⟨v, hv, -, hend⟩ := run_atomic aging keys hwp hrun
  cases res with
  | ok a =>
    refine ⟨.ok a, ⟨ses.view x.tables, seq⟩, ?_, .inl ⟨a, rfl, hv ▸ hend⟩⟩
    simp only [Db.alone, hrun]
  | error e =>
    refine ⟨.error e, { x with seq := seq }, ?_, .inr ⟨e, v, rfl, hend, rfl⟩⟩
    simp only [Db.alone, hrun]

/-- A transaction that cannot raise goes through, and ends as its weakest precondition says. -/
theorem alone_ok {older : Job → Job → Prop} (aging : Aging older) {t : Txn α}
    {Q : α → Tables → Prop} (keys : JobKeys x.tables.jobs x.seq.jobs)
    (hwp : t.wp (rowAccount older pick start) (fun _ _ => False) (fun a v => Q a v.tables)
      ⟨x.tables, x.seq, none⟩) : ∃ a y, x.alone start pick t = some (.ok a, y) ∧ Q a y.tables := by
  obtain ⟨_, y, h, ⟨a, rfl, hq⟩ | ⟨_, _, _, hfalse, _⟩⟩ := alone_cases aging keys hwp
  · exact ⟨a, y, h, hq⟩
  · exact hfalse.elim

/-- What a transaction that has gone through ends with. -/
theorem alone_ends {older : Job → Job → Prop} (aging : Aging older) {t : Txn α}
    {Q : α → Tables → Prop} (keys : JobKeys x.tables.jobs x.seq.jobs)
    (hwp : t.wp (rowAccount older pick start) (fun _ _ => True) (fun a v => Q a v.tables)
      ⟨x.tables, x.seq, none⟩) {a : α} (h : x.alone start pick t = some (.ok a, y)) :
    Q a y.tables := by
  obtain ⟨_, y', h', ⟨b, rfl, hq⟩ | ⟨e, _, rfl, -⟩⟩ := alone_cases aging keys hwp
  · rw [h, Option.some.injEq, Prod.mk.injEq, Except.ok.injEq] at h'
    obtain ⟨rfl, rfl⟩ := h'
    exact hq
  · rw [h] at h'
    cases h'

/-- The rows that a limited select locks. -/
def lockable (x : Db) (pick : Nat → Bool) (p : JobRun → Bool) (limit : Nat) : List JobRun :=
  (x.tables.runs.filter fun r => p r && pick r.runId).take limit

/-- The session that has locked them. -/
def locking (start : Int) (rows : List JobRun) : Session :=
  { start, held := { runs := rows.map (·.runId) } }

/-- A transaction that begins with a limited select goes on with the rows that it locks. -/
theorem alone_lock (p : JobRun → Bool) (limit : Nat) (k : List JobRun → Txn α) :
    x.alone start pick (Txn.lockRuns p limit >>= k) =
      match (k (x.lockable pick p limit)).run (Stmt.exec pick [] x.tables)
        (x.seq, locking start (x.lockable pick p limit)) with
      | none => none
      | some (.ok a, seq, ses) => some (.ok a, ⟨ses.view x.tables, seq⟩)
      | some (.error e, seq, _) => some (.error e, { x with seq := seq }) := by
  have hexec : (Stmt.lockRuns p limit).exec pick [] x.tables (x.seq, { start }) =
      some (x.lockable pick p limit, x.seq, locking start (x.lockable pick p limit)) := by
    simp only [Stmt.exec, Session.view, Write.applyAll_nil, List.any_nil, Bool.not_false,
      Bool.and_true, List.append_nil, lockable, locking]
    rfl
  have hrun : (Txn.lockRuns p limit >>= k).run (Stmt.exec pick [] x.tables) (x.seq, { start }) =
      (k (x.lockable pick p limit)).run (Stmt.exec pick [] x.tables)
        (x.seq, locking start (x.lockable pick p limit)) := by
    change ((Stmt.lockRuns p limit).exec pick [] x.tables (x.seq, { start })).bind _ = _
    rw [hexec]
    rfl
  simp only [Db.alone, hrun]

/-- What such a transaction returns, it has from the rows. -/
theorem alone_lock_returns {p : JobRun → Bool} {limit : Nat} {k : List JobRun → Txn α}
    {Q : α → Prop} (hQ : (k (x.lockable pick p limit)).Returns Q) {a : α}
    (h : x.alone start pick (Txn.lockRuns p limit >>= k) = some (.ok a, y)) : Q a := by
  rw [alone_lock] at h
  split at h
  · cases h
  · next b seq ses hrun =>
    cases h
    exact hQ.run hrun
  · cases h

/-- It goes through if the rest cannot raise on these rows. -/
theorem alone_lock_ok {older : Job → Job → Prop} (aging : Aging older) {p : JobRun → Bool}
    {limit : Nat} {k : List JobRun → Txn α} {Q : α → Tables → Prop}
    (keys : JobKeys x.tables.jobs x.seq.jobs)
    (hwp : (k (x.lockable pick p limit)).wp (rowAccount older pick start) (fun _ _ => False)
      (fun a v => Q a v.tables) ⟨x.tables, x.seq, none⟩) :
    ∃ a y, x.alone start pick (Txn.lockRuns p limit >>= k) = some (.ok a, y) ∧ Q a y.tables := by
  obtain ⟨⟨res, seq, ses⟩, hrun⟩ := Option.isSome_iff_exists.mp
    (run_isSome pick x.tables (k (x.lockable pick p limit))
      (x.seq, locking start (x.lockable pick p limit)))
  have hb : Behind older start x.tables (x.seq, locking start (x.lockable pick p limit))
      ⟨x.tables, x.seq, none⟩ :=
    ⟨rfl, rfl, rfl, rfl, keys, by simp [locking]⟩
  obtain ⟨v, hend⟩ := run_part aging hb hwp hrun
  cases res with
  | ok a =>
    refine ⟨a, ⟨ses.view x.tables, seq⟩, ?_, hend.1.tables ▸ hend.2⟩
    rw [alone_lock, hrun]
  | error e => exact hend.2.elim

end Db

end TaskScheduler
