import TaskScheduler.Db.Session

/-! What the statements of one transaction do to the tables when no other transaction commits in
between: an account over the tables, the sequences, and the tables at the savepoint.  Entities are
the one thing that a session may see stale, and the account allows any earlier version of a row
there.  `run_atomic` is the bridge from the sessions. -/

namespace TaskScheduler

open Lib

/-- Two versions of one row: only the lifecycle columns differ. -/
def Job.SameDef (c r : Job) : Prop :=
  c = { r with state := c.state, cancelledAt := c.cancelledAt, updatedAt := c.updatedAt }

/-- `older c r`: the entity `c` may stand for the row `r`, as an earlier version of it. -/
structure Aging (older : Job → Job → Prop) : Prop where
  refl : ∀ j, older j j
  trans : ∀ {a b c}, older a b → older b c → older a c
  sameDef : ∀ {c r}, older c r → c.SameDef r
  state : ∀ {c r}, older c r → c.state = r.state ∨ c.state = .active

namespace Aging

variable {older : Job → Job → Prop} {c r : Job}

theorem jobId (h : Aging older) (hcr : older c r) : c.jobId = r.jobId := by
  rw [h.sameDef hcr]

theorem cronExpr (h : Aging older) (hcr : older c r) : c.cronExpr = r.cronExpr := by
  rw [h.sameDef hcr]

theorem triggerOnJobId (h : Aging older) (hcr : older c r) :
    c.triggerOnJobId = r.triggerOnJobId := by
  rw [h.sameDef hcr]

end Aging

/-- Job keys are unique, and the sequence is past them. -/
structure JobKeys (jobs : List Job) (next : Nat) : Prop where
  nodup : (jobs.map (·.jobId)).Nodup
  below : ∀ j ∈ jobs, j.jobId < next

theorem JobKeys.eq_of_jobId {jobs : List Job} {next : Nat} (h : JobKeys jobs next) {a b : Job}
    (ha : a ∈ jobs) (hb : b ∈ jobs) (hid : a.jobId = b.jobId) : a = b :=
  List.inj_on_of_nodup_map h.nodup ha hb hid

/-- The tables as the transaction sees them. -/
structure View where
  tables : Tables
  seq : Seq
  saved : Option Tables

/-- The job that an insert stores. -/
def storedJob (seq : Seq) (start : Int) (row : Job) : Job :=
  { row with jobId := seq.jobs, createdAt := start, updatedAt := start }

/-- The run that an insert stores. -/
def storedRun (seq : Seq) (start : Int) (row : JobRun) : JobRun :=
  { row with runId := seq.runs, createdAt := start, updatedAt := start }

/-- The event that an insert stores. -/
def storedEvent (seq : Seq) (start : Int) (row : RunEvent) : RunEvent :=
  { row with eventId := seq.events, occurredAt := start, processedBy := [] }

namespace View

def write (v : View) (w : Write) : View := { v with tables := w.apply v.tables }

def nextJob (v : View) : View := { v with seq := { v.seq with jobs := v.seq.jobs + 1 } }

def nextRun (v : View) : View := { v with seq := { v.seq with runs := v.seq.runs + 1 } }

def nextEvent (v : View) : View := { v with seq := { v.seq with events := v.seq.events + 1 } }

def jobIds (v : View) (p : Job → Bool) : List Nat := (v.tables.jobs.filter p).map (·.jobId)

def runIds (v : View) (p : JobRun → Bool) : List Nat := (v.tables.runs.filter p).map (·.runId)

def eventIds (v : View) (p : RunEvent → Bool) : List Nat :=
  (v.tables.events.filter p).map (·.eventId)

end View

/-- The account of the statements of a transaction that starts at `start`, where limited selects
take rows that `pick` accepts. -/
def rowAccount (older : Job → Job → Prop) (pick : Nat → Bool) (start : Int) :
    Account Stmt Reply View where
  may
    | .updateJobs p set, _ => ∀ j, p j = true → older j (set j)
    | .rollbackTo, v => ∀ t, v.saved = some t → t.jobs = v.tables.jobs
    | _, _ => True
  next
    | .selectJobs p, v, r, v' => r = v.tables.jobs.filter p ∧ v' = v
    | .loadJobs p, v, r, v' => List.Forall₂ older r (v.tables.jobs.filter p) ∧ v' = v
    | .ancestors first limit, v, r, v' => r = ancestorsOf v.tables.jobs first limit ∧ v' = v
    | .insertJob row, v, r, v' =>
      let row := storedJob v.seq start row
      if v.tables.jobs.any row.clashes || !row.scheduleConsistent then r = none ∧ v' = v.nextJob
      else r = some row.jobId ∧ v' = (v.write (.insertJob row)).nextJob
    | .updateJobs p set, v, r, v' =>
      r = v.jobIds p ∧ v' = v.write (.updateJobs (v.jobIds p) set)
    | .selectRuns p, v, r, v' => r = v.tables.runs.filter p ∧ v' = v
    | .lockRuns p _, v, r, v' =>
      List.Sublist r (v.tables.runs.filter fun x => p x && pick x.runId) ∧ v' = v
    | .insertRun row, v, r, v' =>
      let row := storedRun v.seq start row
      if v.tables.runs.any row.clashes then r = none ∧ v' = v.nextRun
      else r = some row.runId ∧ v' = (v.write (.insertRun row)).nextRun
    | .updateRuns p set, v, r, v' =>
      r = v.runIds p ∧ v' = v.write (.updateRuns (v.runIds p) set)
    | .selectEvents p limit, v, r, v' =>
      r = ((v.tables.events.filter p).insertionSort fun a b => a.eventId ≤ b.eventId).take limit ∧
        v' = v
    | .insertEvent row, v, _, v' =>
      v' = (v.write (.insertEvent (storedEvent v.seq start row))).nextEvent
    | .updateEvents p set, v, r, v' =>
      r = v.eventIds p ∧ v' = v.write (.updateEvents (v.eventIds p) set)
    | .advisoryLock _, v, _, v' => v' = v
    | .savepoint, v, _, v' => v' = { v with saved := some v.tables }
    | .rollbackTo, v, _, v' => v' = { v with tables := v.saved.getD v.tables, saved := none }
    | .release, v, _, v' => v' = { v with saved := none }

/-! ### The statements -/

section Rules

variable {older : Job → Job → Prop} {pick : Nat → Bool} {start : Int} {E : Err → View → Prop}
  {v : View}

@[simp] theorem wp_txn_raise {α : Type} {Q : α → View → Prop} (e : Err) :
    (Txn.raise e : Txn α).wp (rowAccount older pick start) E Q v ↔ E e v := Iff.rfl

@[simp] theorem wp_selectJobs {Q : List Job → View → Prop} (p : Job → Bool) :
    (Txn.selectJobs p).wp (rowAccount older pick start) E Q v ↔ Q (v.tables.jobs.filter p) v :=
  ⟨fun h => h.2 _ v ⟨rfl, rfl⟩, fun h => ⟨trivial, by rintro _ _ ⟨rfl, rfl⟩; exact h⟩⟩

@[simp] theorem wp_loadJobs {Q : List Job → View → Prop} (p : Job → Bool) :
    (Txn.loadJobs p).wp (rowAccount older pick start) E Q v ↔
      ∀ r, List.Forall₂ older r (v.tables.jobs.filter p) → Q r v :=
  ⟨fun h r hr => h.2 r v ⟨hr, rfl⟩, fun h => ⟨trivial, by rintro r _ ⟨hr, rfl⟩; exact h r hr⟩⟩

@[simp] theorem wp_ancestors {Q : Option Nat × Bool → View → Prop} (first limit : Nat) :
    (Txn.ancestors first limit).wp (rowAccount older pick start) E Q v ↔
      Q (ancestorsOf v.tables.jobs first limit) v :=
  ⟨fun h => h.2 _ v ⟨rfl, rfl⟩, fun h => ⟨trivial, by rintro _ _ ⟨rfl, rfl⟩; exact h⟩⟩

theorem wp_insertJob {Q : Option Nat → View → Prop} {row : Job}
    (bad : (v.tables.jobs.any (storedJob v.seq start row).clashes ||
      !(storedJob v.seq start row).scheduleConsistent) = true → Q none v.nextJob)
    (good : v.tables.jobs.any (storedJob v.seq start row).clashes = false →
      Q (some v.seq.jobs) (v.write (.insertJob (storedJob v.seq start row))).nextJob) :
    (Txn.insertJob row).wp (rowAccount older pick start) E Q v := by
  refine ⟨trivial, fun r v' h => ?_⟩
  simp only [rowAccount] at h
  split at h
  · next hc =>
    obtain ⟨rfl, rfl⟩ := h
    exact bad hc
  · next hc =>
    obtain ⟨rfl, rfl⟩ := h
    simp only [Bool.or_eq_true, not_or, Bool.not_eq_true] at hc
    exact good hc.1

@[simp] theorem wp_updateJobs {Q : List Nat → View → Prop} (p : Job → Bool) (set : Job → Job) :
    (Txn.updateJobs p set).wp (rowAccount older pick start) E Q v ↔
      (∀ j, p j = true → older j (set j)) ∧
        Q (v.jobIds p) (v.write (.updateJobs (v.jobIds p) set)) :=
  ⟨fun h => ⟨h.1, h.2 _ _ ⟨rfl, rfl⟩⟩,
    fun h => ⟨h.1, by rintro _ _ ⟨rfl, rfl⟩; exact h.2⟩⟩

@[simp] theorem wp_selectRuns {Q : List JobRun → View → Prop} (p : JobRun → Bool) :
    (Txn.selectRuns p).wp (rowAccount older pick start) E Q v ↔ Q (v.tables.runs.filter p) v :=
  ⟨fun h => h.2 _ v ⟨rfl, rfl⟩, fun h => ⟨trivial, by rintro _ _ ⟨rfl, rfl⟩; exact h⟩⟩

@[simp] theorem wp_lockRuns {Q : List JobRun → View → Prop} (p : JobRun → Bool) (limit : Nat) :
    (Txn.lockRuns p limit).wp (rowAccount older pick start) E Q v ↔
      ∀ r, List.Sublist r (v.tables.runs.filter fun x => p x && pick x.runId) → Q r v :=
  ⟨fun h r hr => h.2 r v ⟨hr, rfl⟩, fun h => ⟨trivial, by rintro r _ ⟨hr, rfl⟩; exact h r hr⟩⟩

theorem wp_insertRun {Q : Option Nat → View → Prop} {row : JobRun} :
    (Txn.insertRun row).wp (rowAccount older pick start) E Q v ↔
      (v.tables.runs.any (storedRun v.seq start row).clashes = true → Q none v.nextRun) ∧
      (v.tables.runs.any (storedRun v.seq start row).clashes = false →
        Q (some v.seq.runs) (v.write (.insertRun (storedRun v.seq start row))).nextRun) := by
  constructor
  · intro h
    refine ⟨fun hc => h.2 _ _ ?_, fun hc => h.2 _ _ ?_⟩
    · simp only [rowAccount, hc, if_true]
      exact ⟨rfl, trivial⟩
    · simp only [rowAccount, hc, Bool.false_eq_true, if_false]
      exact ⟨rfl, trivial⟩
  · intro h
    refine ⟨trivial, fun r v' hn => ?_⟩
    simp only [rowAccount] at hn
    split at hn
    · next hc =>
      obtain ⟨rfl, rfl⟩ := hn
      exact h.1 hc
    · next hc =>
      obtain ⟨rfl, rfl⟩ := hn
      exact h.2 (by simpa using hc)

@[simp] theorem wp_updateRuns {Q : List Nat → View → Prop} (p : JobRun → Bool)
    (set : JobRun → JobRun) :
    (Txn.updateRuns p set).wp (rowAccount older pick start) E Q v ↔
      Q (v.runIds p) (v.write (.updateRuns (v.runIds p) set)) :=
  ⟨fun h => h.2 _ _ ⟨rfl, rfl⟩, fun h => ⟨trivial, by rintro _ _ ⟨rfl, rfl⟩; exact h⟩⟩

@[simp] theorem wp_selectEvents {Q : List RunEvent → View → Prop} (p : RunEvent → Bool)
    (limit : Nat) :
    (Txn.selectEvents p limit).wp (rowAccount older pick start) E Q v ↔
      Q (((v.tables.events.filter p).insertionSort
        fun a b => a.eventId ≤ b.eventId).take limit) v :=
  ⟨fun h => h.2 _ v ⟨rfl, rfl⟩, fun h => ⟨trivial, by rintro _ _ ⟨rfl, rfl⟩; exact h⟩⟩

@[simp] theorem wp_insertEvent {Q : Unit → View → Prop} (row : RunEvent) :
    (Txn.insertEvent row).wp (rowAccount older pick start) E Q v ↔
      Q () (v.write (.insertEvent (storedEvent v.seq start row))).nextEvent :=
  ⟨fun h => h.2 (0 : Nat) _ rfl, fun h => ⟨trivial, by rintro _ _ rfl; exact h⟩⟩

@[simp] theorem wp_updateEvents {Q : Unit → View → Prop} (p : RunEvent → Bool)
    (set : RunEvent → RunEvent) :
    (Txn.updateEvents p set).wp (rowAccount older pick start) E Q v ↔
      Q () (v.write (.updateEvents (v.eventIds p) set)) :=
  ⟨fun h => h.2 _ _ ⟨rfl, rfl⟩, fun h => ⟨trivial, by rintro _ _ ⟨rfl, rfl⟩; exact h⟩⟩

@[simp] theorem wp_advisoryLock {Q : Unit → View → Prop} (key : Nat) :
    (Txn.advisoryLock key).wp (rowAccount older pick start) E Q v ↔ Q () v :=
  ⟨fun h => h.2 () v rfl, fun h => ⟨trivial, by rintro _ _ rfl; exact h⟩⟩

@[simp] theorem wp_savepoint {Q : Unit → View → Prop} :
    Txn.savepoint.wp (rowAccount older pick start) E Q v ↔
      Q () { v with saved := some v.tables } :=
  ⟨fun h => h.2 () _ rfl, fun h => ⟨trivial, by rintro _ _ rfl; exact h⟩⟩

@[simp] theorem wp_rollbackTo {Q : Unit → View → Prop} :
    Txn.rollbackTo.wp (rowAccount older pick start) E Q v ↔
      (∀ t, v.saved = some t → t.jobs = v.tables.jobs) ∧
        Q () { v with tables := v.saved.getD v.tables, saved := none } :=
  ⟨fun h => ⟨h.1, h.2 () _ rfl⟩, fun h => ⟨h.1, by rintro _ _ rfl; exact h.2⟩⟩

@[simp] theorem wp_release {Q : Unit → View → Prop} :
    Txn.release.wp (rowAccount older pick start) E Q v ↔ Q () { v with saved := none } :=
  ⟨fun h => h.2 () _ rfl, fun h => ⟨trivial, by rintro _ _ rfl; exact h⟩⟩

end Rules

/-! ### From sessions to the account -/

/-- The session behind a view, where no other transaction has committed since it began. -/
structure Behind (older : Job → Job → Prop) (start : Int) (committed : Tables)
    (d : Seq × Session) (v : View) : Prop where
  tables : v.tables = d.2.view committed
  seq : v.seq = d.1
  saved : v.saved = d.2.saved.map fun s => Write.applyAll s.1 committed
  start : d.2.start = start
  keys : JobKeys v.tables.jobs v.seq.jobs
  loaded : ∀ c ∈ d.2.loaded, c.jobId < v.seq.jobs ∧
    ∀ r ∈ v.tables.jobs, r.jobId = c.jobId → older c r

theorem Behind.entity {older : Job → Job → Prop} {start : Int} {committed : Tables}
    {d : Seq × Session} {v : View} (h : Behind older start committed d v) (aging : Aging older)
    {r : Job} (hr : r ∈ v.tables.jobs) : older (d.2.entity r) r := by
  unfold Session.entity
  cases hf : d.2.loaded.find? fun c => c.jobId == r.jobId with
  | none => exact aging.refl r
  | some c =>
    have hid := List.find?_some hf
    simp only [beq_iff_eq] at hid
    exact (h.loaded c (List.mem_of_find?_eq_some hf)).2 r hr hid.symm

/-- Updating jobs to later versions of themselves keeps the keys. -/
theorem JobKeys.updateJobs {t : Tables} {next : Nat} (h : JobKeys t.jobs next) {ids : List Nat}
    {set : Job → Job} (hset : ∀ j ∈ t.jobs, j.jobId ∈ ids → (set j).jobId = j.jobId) :
    JobKeys ((Write.updateJobs ids set).apply t).jobs next := by
  have hid : ∀ j ∈ t.jobs, (if j.jobId ∈ ids then set j else j).jobId = j.jobId := by
    intro j hj
    split
    · exact hset j hj ‹_›
    · rfl
  constructor
  · have : ((Write.updateJobs ids set).apply t).jobs.map (·.jobId) = t.jobs.map (·.jobId) := by
      simp only [Write.apply, List.map_map]
      exact List.map_congr_left hid
    rw [this]
    exact h.nodup
  · intro j hj
    simp only [Write.apply, List.mem_map] at hj
    obtain ⟨j₀, hj₀, rfl⟩ := hj
    rw [hid j₀ hj₀]
    exact h.below j₀ hj₀

/-- Every statement of a session is one that the account allows. -/
theorem exec_next {older : Job → Job → Prop} (aging : Aging older) {pick : Nat → Bool}
    {others : List Session} {committed : Tables} {start : Int} (s : Stmt) (d : Seq × Session)
    (v : View) (r : Reply s) (d' : Seq × Session) (h : Behind older start committed d v)
    (hmay : (rowAccount older pick start).may s v)
    (hexec : s.exec pick others committed d = some (r, d')) :
    ∃ v', (rowAccount older pick start).next s v r v' ∧ Behind older start committed d' v' := by
  obtain ⟨seq, ses⟩ := d
  obtain ⟨htables, hseq, hsaved, hstart, hkeys, hloaded⟩ := h
  simp only at htables hseq hsaved hstart hloaded
  cases s with
  | selectJobs p =>
    cases hexec
    exact ⟨v, ⟨by rw [htables], rfl⟩, ⟨htables, hseq, hsaved, hstart, hkeys, hloaded⟩⟩
  | loadJobs p =>
    have hb : Behind older start committed (seq, ses) v :=
      ⟨htables, hseq, hsaved, hstart, hkeys, hloaded⟩
    cases hexec
    refine ⟨v, ⟨?_, rfl⟩, ⟨htables, hseq, hsaved, hstart, hkeys, ?_⟩⟩
    · rw [← htables, List.forall₂_map_left_iff, List.forall₂_same]
      exact fun r hr => hb.entity aging (List.mem_filter.mp hr).1
    · intro c hc
      rcases List.mem_append.mp hc with hc | hc
      · exact hloaded c hc
      · rw [← htables, List.mem_filter, List.mem_filter] at hc
        refine ⟨hkeys.below c hc.1.1, fun r hr hid => ?_⟩
        rw [hkeys.eq_of_jobId hr hc.1.1 hid]
        exact aging.refl c
  | ancestors first limit =>
    cases hexec
    exact ⟨v, ⟨by rw [htables], rfl⟩, ⟨htables, hseq, hsaved, hstart, hkeys, hloaded⟩⟩
  | selectRuns p =>
    cases hexec
    exact ⟨v, ⟨by rw [htables], rfl⟩, ⟨htables, hseq, hsaved, hstart, hkeys, hloaded⟩⟩
  | lockRuns p limit =>
    cases hexec
    refine ⟨v, ⟨?_, rfl⟩, ⟨htables, hseq, hsaved, hstart, hkeys, hloaded⟩⟩
    rw [← htables]
    refine (List.take_sublist _ _).trans (List.monotone_filter_right _ fun x hx => ?_)
    simp only [Bool.and_eq_true] at hx ⊢
    exact hx.1
  | selectEvents p limit =>
    cases hexec
    exact ⟨v, ⟨by rw [htables], rfl⟩, ⟨htables, hseq, hsaved, hstart, hkeys, hloaded⟩⟩
  | insertJob row =>
    simp only [Stmt.exec] at hexec
    split at hexec
    · cases hexec
    · split at hexec
      · next hc =>
        cases hexec
        refine ⟨v.nextJob, ?_, ⟨htables, ?_, hsaved, hstart, ?_, ?_⟩⟩
        · have hc' : (v.tables.jobs.any (storedJob v.seq start row).clashes ||
              !(storedJob v.seq start row).scheduleConsistent) = true := by
            rw [htables, hseq, ← hstart]; exact hc
          simp only [rowAccount, hc', if_true]
          exact ⟨rfl, trivial⟩
        · simp [View.nextJob, hseq]
        · exact ⟨hkeys.nodup, fun j hj => Nat.lt_succ_of_lt (hkeys.below j hj)⟩
        · exact fun c hc => ⟨Nat.lt_succ_of_lt (hloaded c hc).1, (hloaded c hc).2⟩
      · next hc =>
        cases hexec
        refine ⟨(v.write (.insertJob (storedJob v.seq start row))).nextJob, ?_,
          ⟨?_, ?_, hsaved, hstart, ?_, ?_⟩⟩
        · have hc' : ¬(v.tables.jobs.any (storedJob v.seq start row).clashes ||
              !(storedJob v.seq start row).scheduleConsistent) = true := by
            rw [htables, hseq, ← hstart]; exact hc
          simp only [rowAccount, hc', if_false, Bool.false_eq_true]
          exact ⟨by rw [hseq]; rfl, trivial⟩
        · simp [View.nextJob, View.write, Session.write, Session.view, htables, storedJob, hseq,
            hstart]
        · simp [View.nextJob, View.write, hseq]
        · refine ⟨?_, ?_⟩
          · simp only [View.nextJob, View.write, Write.apply, List.map_append, List.map_cons,
              List.map_nil]
            rw [List.nodup_append]
            refine ⟨hkeys.nodup, by simp, ?_⟩
            intro a ha b hb
            obtain ⟨j, hj, rfl⟩ := List.mem_map.mp ha
            have := hkeys.below j hj
            simp only [List.mem_singleton, storedJob] at hb
            omega
          · intro j hj
            simp only [View.nextJob, View.write, Write.apply, List.mem_append,
              List.mem_singleton] at hj ⊢
            rcases hj with hj | rfl
            · have := hkeys.below j hj
              omega
            · simp [storedJob]
        · intro c hc
          obtain ⟨hlt, hold⟩ := hloaded c hc
          refine ⟨Nat.lt_succ_of_lt hlt, fun r hr hid => ?_⟩
          simp only [View.nextJob, View.write, Write.apply, List.mem_append,
            List.mem_singleton] at hr
          rcases hr with hr | rfl
          · exact hold r hr hid
          · simp only [storedJob] at hid
            omega
  | updateJobs p set =>
    simp only [Stmt.exec] at hexec
    split at hexec
    · cases hexec
    · cases hexec
      have hmatch : ∀ j ∈ v.tables.jobs, j.jobId ∈ v.jobIds p → p j = true := by
        intro j hj hid
        obtain ⟨j', hj', hid'⟩ := List.mem_map.mp hid
        rw [List.mem_filter] at hj'
        rw [← hkeys.eq_of_jobId hj'.1 hj hid']
        exact hj'.2
      have hset : ∀ j ∈ v.tables.jobs, j.jobId ∈ v.jobIds p → (set j).jobId = j.jobId :=
        fun j hj hid => (aging.jobId (hmay j (hmatch j hj hid))).symm
      refine ⟨v.write (.updateJobs (v.jobIds p) set), ⟨?_, rfl⟩,
        ⟨?_, hseq, hsaved, hstart, hkeys.updateJobs hset, ?_⟩⟩
      · simp only [View.jobIds]; rw [htables]
      · simp [View.write, Session.write, Session.view, htables, View.jobIds]
      · intro c hc
        obtain ⟨hlt, hold⟩ := hloaded c hc
        refine ⟨hlt, fun r hr hid => ?_⟩
        simp only [View.write, Write.apply, List.mem_map] at hr
        obtain ⟨j, hj, rfl⟩ := hr
        by_cases hin : j.jobId ∈ v.jobIds p
        · rw [if_pos hin] at hid ⊢
          rw [hset j hj hin] at hid
          exact aging.trans (hold j hj hid) (hmay j (hmatch j hj hin))
        · rw [if_neg hin] at hid ⊢
          exact hold j hj hid
  | insertRun row =>
    simp only [Stmt.exec] at hexec
    split at hexec
    · cases hexec
    · split at hexec
      · next hc =>
        cases hexec
        refine ⟨v.nextRun, ?_, ⟨htables, ?_, hsaved, hstart, hkeys, hloaded⟩⟩
        · have hc' : v.tables.runs.any (storedRun v.seq start row).clashes = true := by
            rw [htables, hseq, ← hstart]; exact hc
          simp only [rowAccount, hc', if_true]
          exact ⟨rfl, trivial⟩
        · simp [View.nextRun, hseq]
      · next hc =>
        cases hexec
        refine ⟨(v.write (.insertRun (storedRun v.seq start row))).nextRun, ?_,
          ⟨?_, ?_, hsaved, hstart, hkeys, hloaded⟩⟩
        · have hc' : ¬v.tables.runs.any (storedRun v.seq start row).clashes = true := by
            rw [htables, hseq, ← hstart]; exact hc
          simp only [rowAccount, hc', if_false, Bool.false_eq_true]
          exact ⟨by rw [hseq]; rfl, trivial⟩
        · simp [View.nextRun, View.write, Session.write, Session.view, htables, storedRun, hseq,
            hstart]
        · simp [View.nextRun, View.write, hseq]
  | updateRuns p set =>
    simp only [Stmt.exec] at hexec
    split at hexec
    · cases hexec
    · cases hexec
      refine ⟨v.write (.updateRuns (v.runIds p) set), ⟨?_, rfl⟩,
        ⟨?_, hseq, hsaved, hstart, hkeys, hloaded⟩⟩
      · simp only [View.runIds]; rw [htables]
      · simp [View.write, Session.write, Session.view, htables, View.runIds]
  | insertEvent row =>
    cases hexec
    refine ⟨(v.write (.insertEvent (storedEvent v.seq start row))).nextEvent, rfl,
      ⟨?_, ?_, hsaved, hstart, hkeys, hloaded⟩⟩
    · simp [View.nextEvent, View.write, Session.write, Session.view, htables, storedEvent, hseq,
        hstart]
    · simp [View.nextEvent, View.write, hseq]
  | updateEvents p set =>
    simp only [Stmt.exec] at hexec
    split at hexec
    · cases hexec
    · cases hexec
      refine ⟨v.write (.updateEvents (v.eventIds p) set), ⟨?_, rfl⟩,
        ⟨?_, hseq, hsaved, hstart, hkeys, hloaded⟩⟩
      · simp only [View.eventIds]; rw [htables]
      · simp [View.write, Session.write, Session.view, htables, View.eventIds]
  | advisoryLock key =>
    simp only [Stmt.exec] at hexec
    split at hexec
    · cases hexec
    · cases hexec
      exact ⟨v, rfl, ⟨htables, hseq, hsaved, hstart, hkeys, hloaded⟩⟩
  | savepoint =>
    cases hexec
    exact ⟨_, rfl, ⟨htables, hseq, by simp [htables, Session.view], hstart, hkeys, hloaded⟩⟩
  | rollbackTo =>
    simp only [Stmt.exec] at hexec
    split at hexec
    · next hnone =>
      cases hexec
      rw [hnone] at hsaved
      refine ⟨_, rfl, ⟨by simp [hsaved, htables], hseq, by simp [hnone], hstart, ?_, ?_⟩⟩
      · simpa [hsaved] using hkeys
      · simpa [hsaved] using hloaded
    · next writes held hsome =>
      cases hexec
      rw [hsome] at hsaved
      simp only [Option.map_some] at hsaved
      have hjobs := hmay _ hsaved
      refine ⟨_, rfl, ⟨by simp [hsaved, Session.view], hseq, rfl, hstart, ?_, ?_⟩⟩
      · simp only [hsaved, Option.getD_some]
        exact ⟨by rw [hjobs]; exact hkeys.nodup, by rw [hjobs]; exact hkeys.below⟩
      · simp only [hsaved, Option.getD_some]
        rw [hjobs]
        exact hloaded
  | release =>
    cases hexec
    exact ⟨_, rfl, ⟨htables, hseq, rfl, hstart, hkeys, hloaded⟩⟩

theorem Behind.start_view {older : Job → Job → Prop} {start : Int} {committed : Tables} {seq : Seq}
    (keys : JobKeys committed.jobs seq.jobs) :
    Behind older start committed (seq, { start }) ⟨committed, seq, none⟩ :=
  ⟨rfl, rfl, rfl, rfl, keys, by simp⟩

/-- A part of a transaction that runs without a commit in between ends as its weakest precondition
over the account says. -/
theorem run_part {older : Job → Job → Prop} (aging : Aging older) {pick : Nat → Bool}
    {others : List Session} {committed : Tables} {start : Int} {d d' : Seq × Session} {v : View}
    (hb : Behind older start committed d v) {α : Type} {t : Txn α} {E : Err → View → Prop}
    {Q : α → View → Prop} (hwp : t.wp (rowAccount older pick start) E Q v) {res : Except Err α}
    (hrun : t.run (Stmt.exec pick others committed) d = some (res, d')) :
    ∃ v', Behind older start committed d' v' ∧ Program.Ends E Q res v' :=
  Program.run_of_wp (Behind older start committed)
    (fun s d g r d' hrel hmay hexec => exec_next aging s d g r d' hrel hmay hexec) t _ _ hb hwp hrun

/-- A transaction that runs without a commit in between ends as its weakest precondition over the
account says. -/
theorem run_atomic {older : Job → Job → Prop} (aging : Aging older) {pick : Nat → Bool}
    {others : List Session} {committed : Tables} {seq : Seq} {start : Int}
    (keys : JobKeys committed.jobs seq.jobs) {α : Type} {t : Txn α} {E : Err → View → Prop}
    {Q : α → View → Prop}
    (hwp : t.wp (rowAccount older pick start) E Q ⟨committed, seq, none⟩)
    {res : Except Err α} {seq' : Seq} {ses' : Session}
    (hrun : t.run (Stmt.exec pick others committed) (seq, { start }) = some (res, seq', ses')) :
    ∃ v', v'.tables = ses'.view committed ∧ v'.seq = seq' ∧ Program.Ends E Q res v' := by
  obtain ⟨v', hb, hend⟩ := run_part aging (.start_view keys) hwp hrun
  exact ⟨v', hb.tables, hb.seq, hend⟩

end TaskScheduler
