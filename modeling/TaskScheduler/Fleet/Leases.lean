import TaskScheduler.Fleet.Attempts
import TaskScheduler.Fleet.Recover
import TaskScheduler.Interleave.Lineage
import TaskScheduler.Interleave.Replay
import TaskScheduler.Ledger.Atomic

/-! The leases of the workers.  Sweep C takes a RUNNING run whose heartbeat is older than the grace
for the run of a crashed worker.  If no live worker lets its lease run out it is right, and then the
fleet is no more than the system of atomic transactions whose Sweep C spares live workers: whatever
holds of every run of that system holds of every run of the fleet. -/

namespace TaskScheduler

open Lib

/-! ### What a transaction makes of a run -/

/-- The run goes on by updates of the transaction. -/
def Kind.Moves (k : Kind) : JobRun → JobRun → Prop :=
  Relation.ReflTransGen fun c v => ∃ p set, k.Updates p set ∧ v = set c

/-- The write updates runs as the transaction does. -/
def Kind.Writes (k : Kind) (w : Write) : Prop :=
  ∀ ids set, w = .updateRuns ids set → ∃ p, k.Updates p set

theorem Kind.makes (k : Kind) (cfg : Config) : (k.prog cfg).Issues (Stmt.Makes k.Writes) := by
  refine (k.runs cfg).mono fun s hs => ?_
  cases s with
  | updateRuns p set =>
    rintro ids - _ _ ⟨rfl, rfl⟩
    exact ⟨p, hs⟩
  | insertJob row | insertRun row | insertEvent row => exact fun _ _ _ _ h => by cases h
  | updateJobs p set | updateEvents p set => exact fun _ _ _ h => by cases h
  | _ => trivial

theorem Kind.moves_onRun {k : Kind} {ws : List Write} (h : ∀ w ∈ ws, k.Writes w) (r : JobRun) :
    k.Moves r (Write.onRun ws r) := by
  induction ws generalizing r with
  | nil => exact .refl
  | cons w ws ih =>
    have hrest := ih fun w hw => h w (List.mem_cons_of_mem _ hw)
    cases w with
    | updateRuns ids set =>
      obtain ⟨p, hset⟩ := h _ List.mem_cons_self ids set rfl
      rw [Write.onRun]
      split
      · exact .head ⟨p, set, hset, rfl⟩ (hrest _)
      · exact hrest r
    | _ => exact hrest r

/-- A transaction that is alone moves every run by its own updates. -/
theorem alone_moves {cfg : Config} {k : Kind} {start : Int} {pick : Nat → Bool} {x y : Db}
    {res : Except Err Bool} (h : x.alone start pick (k.prog cfg) = some (res, y)) :
    ∀ c ∈ x.tables.runs, ∃ v ∈ y.tables.runs, k.Moves c v := by
  intro c hc
  unfold Db.alone at h
  split at h
  · cases h
  · next won seq ses hrun =>
    cases h
    have hmade : ses.Made k.Writes :=
      (k.makes cfg).run (I := fun d : Seq × Session => d.2.Made k.Writes)
        (fun s d r d' hs hd hexec => exec_made s d r d' hs hd hexec) ⟨by simp, by simp⟩ hrun
    refine ⟨Write.onRun ses.writes c, ?_, Kind.moves_onRun hmade.now c⟩
    rw [Session.view, Write.applyAll_runs]
    exact List.mem_append_left _ (List.mem_map_of_mem hc)
  · cases h
    exact ⟨c, hc, .refl⟩

/-- The heartbeats that the transaction writes. -/
def Kind.renews : Kind → Int → Prop
  | .claim now _ _, at_ | .heartbeat now _, at_ => at_ = now
  | _, _ => False

theorem Outcome.write_heartbeatAt (now : Int) (outcome : Outcome) (r : JobRun) :
    (outcome.write now r).heartbeatAt = r.heartbeatAt := by
  cases outcome with
  | returned res =>
    simp only [Outcome.write]
    split
    · rfl
    · split <;> rfl
  | raised message | invalid message eventData => rfl

theorem Kind.Moves.sameRun {k : Kind} {c v : JobRun} (h : k.Moves c v) : c.SameRun v := by
  induction h with
  | refl => exact .refl c
  | tail _ hset ih =>
    obtain ⟨p, set, hset, rfl⟩ := hset
    exact ih.trans (hset.sameRun _)

/-- A run keeps its heartbeat, or gets a new one. -/
theorem Kind.Moves.heartbeat {k : Kind} {c v : JobRun} (h : k.Moves c v) :
    v.heartbeatAt = c.heartbeatAt ∨ ∃ at_, k.renews at_ ∧ v.heartbeatAt = some at_ := by
  induction h with
  | refl => exact .inl rfl
  | tail _ hset ih =>
    obtain ⟨p, set, hset, rfl⟩ := hset
    cases hset with
    | claim | heartbeat => exact .inr ⟨_, rfl, rfl⟩
    | finish =>
      rw [Outcome.write_heartbeatAt]
      exact ih
    | _ => exact ih

/-- A claim that has changed a run has given it a heartbeat. -/
theorem Kind.Moves.claimed {now : Int} {runId jobId : Nat} {c v : JobRun}
    (h : (Kind.claim now runId jobId).Moves c v) : v = c ∨ v.heartbeatAt = some now := by
  cases h with
  | refl => exact .inl rfl
  | tail _ hset =>
    obtain ⟨p, set, hset, rfl⟩ := hset
    cases hset
    exact .inr rfl

/-! ### The live workers -/

/-- The run and the job that the process works on. -/
def Proc.worker : Proc → Option (Nat × Nat)
  | .working m => some (m.runId, m.jobId)
  | _ => none

namespace Fleet

/-- The live workers, each with the run and the job of its message. -/
def workers (φ : Fleet) : List (Nat × Nat) := φ.procs.filterMap fun p => p.bind Proc.worker

variable {set : Settings} {φ φ' : Fleet}

theorem filterMap_cons_toList {α β : Type} (f : α → Option β) (a : α) (l : List α) :
    (a :: l).filterMap f = (f a).toList ++ l.filterMap f := by
  cases h : f a <;> simp [h]

/-- A process goes on: what it worked on makes place for what it works on now. -/
theorem workers_become {i : Nat} {p : Proc} (hi : φ.proc i = some p) (q : Option Proc) :
    (p.worker.toList ++ (φ.become i q).workers).Perm
      ((q.bind Proc.worker).toList ++ φ.workers) := by
  obtain ⟨hlt, hget⟩ := List.getElem?_eq_some_iff.mp (Option.join_eq_some_iff.mp hi)
  have hold := (List.getElem_cons_eraseIdx_perm hlt).filterMap fun p => p.bind Proc.worker
  have hset : i < (φ.procs.set i q).length := by rwa [List.length_set]
  have hnew := (List.getElem_cons_eraseIdx_perm hset).filterMap fun p => p.bind Proc.worker
  rw [filterMap_cons_toList, hget] at hold
  rw [filterMap_cons_toList, List.getElem_set_self, List.eraseIdx_set_eq] at hnew
  refine (hnew.symm.append_left _).trans ?_
  refine (List.perm_append_comm_assoc _ _ _).trans ?_
  exact hold.append_left _

/-- A process that did not work goes on, and works no more than before. -/
theorem workers_idle {i : Nat} {p : Proc} (hi : φ.proc i = some p) (hp : p.worker = none)
    {q : Option Proc} (hq : q.bind Proc.worker = none) : (φ.become i q).workers.Perm φ.workers := by
  have := workers_become hi q
  rwa [hp, hq] at this

/-- A worker is done. -/
theorem workers_done {i : Nat} {m : Message} (hi : φ.proc i = some (.working m)) {q : Option Proc}
    (hq : q.bind Proc.worker = none) :
    (φ.become i q).workers.Perm (φ.workers.erase (m.runId, m.jobId)) := by
  have := (workers_become hi q).erase (m.runId, m.jobId)
  rw [hq] at this
  simpa [Proc.worker] using this

/-- A process that has ended does so once more. -/
theorem become_ended {i : Nat} (hi : φ.proc i = none) : φ.become i none = φ := by
  have hsame : φ.procs.set i none = φ.procs := by
    refine List.ext_getElem? fun j => ?_
    rw [List.getElem?_set]
    split
    · next hij =>
      subst hij
      split
      · next hlt =>
        unfold proc at hi
        rw [List.getElem?_eq_getElem hlt] at hi ⊢
        exact congrArg some hi.symm
      · next hlt => exact (List.getElem?_eq_none (Nat.le_of_not_lt hlt)).symm
    · rfl
  unfold become
  rw [hsame]

theorem workers_launch (q : Proc) (hq : q.worker = none) : (φ.launch q).workers = φ.workers := by
  simp [workers, launch, hq]

theorem mem_workers {i : Nat} {m : Message} (hi : φ.proc i = some (.working m)) :
    (m.runId, m.jobId) ∈ φ.workers :=
  List.mem_filterMap.mpr ⟨some (.working m), List.mem_of_getElem? (Option.join_eq_some_iff.mp hi), rfl⟩

/-! ### The atomic system -/

end Fleet

/-- The workers after a transaction at once. -/
def Kind.after (k : Kind) (res : Except Err Bool) (ws : List (Nat × Nat)) : List (Nat × Nat) :=
  match res with
  | .ok won => k.done won (k.taken ws)
  | .error _ => k.taken ws

theorem Kind.after_perm (k : Kind) (res : Except Err Bool) {ws ws' : List (Nat × Nat)}
    (h : ws.Perm ws') : (k.after res ws).Perm (k.after res ws') := by
  have htaken : (k.taken ws).Perm (k.taken ws') := by
    cases k with
    | finish now runId jobId outcome => exact h.erase _
    | _ => exact h
  cases res with
  | error e => exact htaken
  | ok won =>
    cases k with
    | claim now runId jobId =>
      cases won with
      | true => exact htaken.cons _
      | false => exact htaken
    | _ => exact htaken

/-- The process may issue the transaction, and Sweep C as it is configured. -/
def Kind.issuable (set : Settings) (φ : Fleet) : Kind → Prop
  | .claim now runId jobId => now = φ.clock ∧ φ.db.tables.Due runId jobId φ.clock
  | .finish _ runId jobId _ => (runId, jobId) ∈ φ.workers
  | .heartbeat now runId => now = φ.clock ∧ ∃ w ∈ φ.workers, w.1 = runId
  | .sweepC now _ grace _ => now ≤ φ.clock ∧ grace = set.runningGrace
  | .deliver _ _ => False
  | _ => True

namespace Fleet

variable {set : Settings} {φ φ' : Fleet}

/-- The state of the atomic system with the same database and the same live workers. -/
structure Simulates (σ : Sys) (φ : Fleet) : Prop where
  tables : σ.tables = φ.db.tables
  seq : σ.seq = φ.db.seq
  sessions : σ.sessions = []
  workers : σ.workers.Perm φ.workers

/-- A step that runs the transaction `k`. -/
structure Runs (set : Settings) (φ φ' : Fleet) (k : Kind) (pick : Nat → Bool)
    (res : Except Err Bool) : Prop where
  alone : φ.alone pick (k.prog set.cfg) = some (res, φ'.db)
  clock : φ'.clock = φ.clock
  workers : φ'.workers.Perm (k.after res φ.workers)
  issuable : k.issuable set φ

/-- A step that leaves the database as it is: a worker may crash, and time may pass. -/
structure Rests (φ φ' : Fleet) (a : FleetAct) : Prop where
  db : φ'.db = φ.db
  clock : φ'.clock = φ.clock ∨ ∃ d, a = .tick d ∧ φ'.clock = φ.clock + d
  workers : φ'.workers.Perm φ.workers ∨ ∃ w, φ'.workers.Perm (φ.workers.erase w)

/-- A process that does not work runs a transaction, and does not work afterwards. -/
theorem runs_transact {α : Type} {i : Nat} {p : Proc} (hi : φ.proc i = some p)
    (hp : p.worker = none) {pick : Nat → Bool} {t : Txn α} {next : α → Option Proc}
    (hnext : ∀ a, (next a).bind Proc.worker = none) {k : Kind} (hk : k.prog set.cfg = t.quiet)
    (hafter : ∀ res ws, k.after res ws = ws) (hissue : k.issuable set φ)
    (hstep : φ.transact i pick t next = some φ') : ∃ k pick res, Runs set φ φ' k pick res := by
  obtain ⟨res, db, hres, ⟨a, -, rfl⟩ | ⟨e, -, rfl⟩⟩ := transact_cases hstep
  all_goals
    obtain ⟨res', hk'⟩ := alone_quiet hres
    refine ⟨k, pick, res', hk ▸ hk', rfl, ?_, hissue⟩
    rw [hafter]
  · exact workers_idle hi hp (hnext a)
  · exact workers_idle hi hp rfl

theorem after_same {k : Kind} (hclaim : ∀ now runId jobId, k ≠ .claim now runId jobId)
    (hfinish : ∀ now runId jobId outcome, k ≠ .finish now runId jobId outcome)
    (res : Except Err Bool) (ws : List (Nat × Nat)) : k.after res ws = ws := by
  cases k with
  | claim now runId jobId => exact absurd rfl (hclaim now runId jobId)
  | finish now runId jobId outcome => exact absurd rfl (hfinish now runId jobId outcome)
  | _ => cases res <;> rfl

theorem step_runs (h : φ.Sound) {a : FleetAct} (hstep : φ.step set a = some φ') :
    Rests φ φ' a ∨ ∃ k pick res, Runs set φ φ' k pick res := by
  cases a with
  | tick d =>
    cases hstep
    exact .inl ⟨rfl, .inr ⟨d, rfl, rfl⟩, .inl (.refl _)⟩
  | other k pick =>
    simp only [step] at hstep
    split at hstep
    · next hout =>
      obtain ⟨⟨res, db⟩, hres, rfl⟩ := Option.map_eq_some_iff.mp hstep
      refine .inr ⟨k, pick, res, hres, rfl, ?_, ?_⟩
      · rw [after_same (by rintro _ _ _ rfl; cases hout) (by rintro _ _ _ _ rfl; cases hout)]
        exact .refl _
      · cases k <;> trivial
    · cases hstep
  | begin_ role =>
    cases hstep
    refine .inl ⟨rfl, .inl rfl, .inl ?_⟩
    rw [workers_launch _ rfl]
  | publish i batchSize pick =>
    simp only [step] at hstep
    split at hstep
    · next now hi =>
      exact .inr (runs_transact (k := .publish now batchSize) hi rfl (fun _ => rfl) rfl
        (after_same (by simp) (by simp)) trivial hstep)
    · cases hstep
  | sweepA i batchSize pick =>
    simp only [step] at hstep
    split at hstep
    · next now hi =>
      exact .inr (runs_transact (k := .sweepA now set.dlqGrace batchSize) hi rfl (fun _ => rfl) rfl
        (after_same (by simp) (by simp)) trivial hstep)
    · cases hstep
  | sweepB i batchSize pick sent arrives commits =>
    simp only [step] at hstep
    split at hstep
    · next now hi =>
      have hidle := workers_idle hi rfl (q := none) rfl
      split at hstep
      · next runs db hres =>
        cases hstep
        obtain ⟨hdb, hclock, hprocs⟩ :=
          posts_same ((runs.filter fun r => arrives r.runId).map entryNow) (φ.become i none)
        have hworkers : ∀ ψ : Fleet, ψ.procs = (φ.become i none).procs →
            ψ.workers.Perm φ.workers := by
          intro ψ hψ
          unfold workers at hidle ⊢
          rwa [hψ]
        cases commits with
        | true =>
          obtain ⟨res, hk⟩ := alone_quiet hres
          refine .inr ⟨.sweepB now φ.clock set.queuedGrace batchSize sent, pick, res, hk, hclock, ?_,
            trivial⟩
          rw [after_same (by simp) (by simp)]
          exact hworkers _ hprocs
        | false => exact .inl ⟨rfl, .inl hclock, .inl (hworkers _ hprocs)⟩
      · next e db hres =>
        cases hstep
        obtain ⟨res, hk⟩ := alone_quiet hres
        refine .inr ⟨.sweepB now φ.clock set.queuedGrace batchSize sent, pick, res, hk, rfl, ?_,
          trivial⟩
        rw [after_same (by simp) (by simp)]
        exact hidle
      · cases hstep
    · cases hstep
  | sweepC i batchSize pick =>
    simp only [step] at hstep
    split at hstep
    · next now hi =>
      exact .inr (runs_transact (k := .sweepC now φ.clock set.runningGrace batchSize) hi rfl
        (fun _ => rfl) rfl (after_same (by simp) (by simp)) ⟨h.procs i _ hi, rfl⟩ hstep)
    · cases hstep
  | send i arrives =>
    simp only [step] at hstep
    split at hstep
    · next e es hi =>
      cases hstep
      have hidle := workers_idle hi rfl (q := some (.sending es)) rfl
      cases arrives <;> exact .inl ⟨rfl, .inl rfl, .inl hidle⟩
    · cases hstep
  | receive k =>
    simp only [step] at hstep
    split at hstep
    · split at hstep
      · cases hstep
        refine .inl ⟨rfl, .inl rfl, .inl ?_⟩
        rw [workers_launch _ rfl]
      · cases hstep
    · cases hstep
  | claim i =>
    simp only [step] at hstep
    split at hstep
    · next m hi =>
      have hissue : (Kind.claim φ.clock m.runId m.jobId).issuable set φ := ⟨rfl, h.procs i _ hi⟩
      obtain ⟨res, db, hres, ⟨won, rfl, rfl⟩ | ⟨e, rfl, rfl⟩⟩ := transact_cases hstep
      · refine .inr ⟨.claim φ.clock m.runId m.jobId, _, .ok won, hres, rfl, ?_, hissue⟩
        cases won with
        | true => exact workers_become hi (some (.working m))
        | false => exact workers_idle hi rfl rfl
      · exact .inr ⟨.claim φ.clock m.runId m.jobId, _, .error e, hres, rfl, workers_idle hi rfl rfl,
          hissue⟩
    · cases hstep
  | heartbeat i =>
    simp only [step] at hstep
    split at hstep
    · next m hi =>
      obtain ⟨res, db, hres, ⟨u, -, rfl⟩ | ⟨e, rfl, -⟩⟩ := transact_cases hstep
      · obtain ⟨res', hk⟩ := alone_quiet hres
        refine .inr ⟨.heartbeat φ.clock m.runId, _, res', hk, rfl, ?_, rfl, _, mem_workers hi, rfl⟩
        rw [after_same (by simp) (by simp)]
        have := workers_become hi (some (.working m))
        exact (List.perm_cons _).mp this
      · -- the update of a heartbeat raises nothing
        cases hres
    · cases hstep
  | finish i outcome =>
    simp only [step] at hstep
    split at hstep
    · next m hi =>
      obtain ⟨res, db, hres, ⟨u, -, rfl⟩ | ⟨e, -, rfl⟩⟩ := transact_cases hstep
      · obtain ⟨res', hk⟩ := alone_quiet hres
        refine .inr ⟨.finish φ.clock m.runId m.jobId outcome, _, res', hk, rfl, ?_, mem_workers hi⟩
        have hdone : (φ.become i (if outcome.retries then none else some (.deleting m))).workers.Perm
            (φ.workers.erase (m.runId, m.jobId)) := workers_done hi (by split <;> rfl)
        cases res' <;> exact hdone
      · obtain ⟨res', hk⟩ := alone_quiet hres
        refine .inr ⟨.finish φ.clock m.runId m.jobId outcome, _, res', hk, rfl, ?_, mem_workers hi⟩
        have hdone := workers_done hi (q := none) rfl
        cases res' <;> exact hdone
    · cases hstep
  | delete i =>
    simp only [step] at hstep
    split at hstep
    · next m hi =>
      cases hstep
      exact .inl ⟨rfl, .inl rfl, .inl (workers_idle hi rfl rfl)⟩
    · cases hstep
  | crash i =>
    cases hstep
    refine .inl ⟨rfl, .inl rfl, ?_⟩
    cases hi : φ.proc i with
    | none =>
      refine .inl ?_
      rw [become_ended hi]
    | some p =>
      cases hp : p.worker with
      | none => exact .inl (workers_idle hi hp rfl)
      | some w =>
        cases p with
        | working m => exact .inr ⟨_, workers_done hi rfl⟩
        | _ => cases hp
  | lose k =>
    cases hstep
    exact .inl ⟨rfl, .inl rfl, .inl (.refl _)⟩
  | duplicate k =>
    simp only [step] at hstep
    split at hstep
    · cases hstep
      exact .inl ⟨rfl, .inl rfl, .inl (.refl _)⟩
    · cases hstep
  | bury k =>
    cases hstep
    exact .inl ⟨rfl, .inl rfl, .inl (.refl _)⟩

/-! ### The refinement -/

/-- The clock does not pass the end of the lease of a live worker: the worker renews its lease, ends
its run, or crashes before. -/
def Timely (set : Settings) (φ : Fleet) : FleetAct → Prop
  | .tick d => ∀ w ∈ φ.workers, ∀ r ∈ φ.db.tables.runs, r.runId = w.1 → ∀ h, r.heartbeatAt = some h →
    φ.clock + d ≤ h + set.runningGrace
  | _ => True

/-- The lease of the run is not older than the grace. -/
def Leased (t : Tables) (grace clock : Int) (runId : Nat) : Prop :=
  ∃ r ∈ t.runs, r.runId = runId ∧ ∃ h, r.heartbeatAt = some h ∧ clock ≤ h + grace

variable {σ : Sys}

/-- What a transaction of the fleet is in the atomic system. -/
theorem Runs.atomic {k : Kind} {pick : Nat → Bool} {res : Except Err Bool}
    (h : Runs set φ φ' k pick res) (hσ : Simulates σ φ) (hen : k.enabled σ = true) :
    ∃ σ', σ.step set.cfg (.atomic k φ.clock pick) = some σ' ∧ Simulates σ' φ' := by
  have hworkers := (k.after_perm res hσ.workers).trans h.workers.symm
  refine ⟨{ σ with tables := φ'.db.tables, seq := φ'.db.seq, workers := k.after res σ.workers }, ?_,
    rfl, rfl, hσ.sessions, hworkers⟩
  have hopen : σ.open_ = [] := by simp [Sys.open_, hσ.sessions]
  have halone := h.alone
  unfold Fleet.alone Db.alone at halone
  rw [← hσ.tables, ← hσ.seq] at halone
  simp only [Sys.step, hen, if_true, hopen]
  split at halone
  · cases halone
  · next won seq ses hrun =>
    rw [hrun]
    simp only [Option.some.injEq, Prod.mk.injEq] at halone
    obtain ⟨rfl, hdb⟩ := halone
    rw [← hdb]
    rfl
  · next e seq ses hrun =>
    rw [hrun]
    simp only [Option.some.injEq, Prod.mk.injEq] at halone
    obtain ⟨rfl, hdb⟩ := halone
    rw [← hdb]
    rfl

/-- A transaction that a process may issue is enabled. -/
theorem Simulates.enabled (hσ : Simulates σ φ) {k : Kind} (h : k.issuable set φ) :
    k.enabled σ = true := by
  cases k with
  | claim now runId jobId =>
    obtain ⟨-, r, hr, hid, hjob, -⟩ := h
    rw [Kind.enabled, hσ.tables, List.any_eq_true]
    exact ⟨r, hr, by simp [hid, hjob]⟩
  | finish now runId jobId outcome =>
    rw [Kind.enabled, decide_eq_true_eq]
    exact hσ.workers.mem_iff.mpr h
  | heartbeat now runId =>
    obtain ⟨-, w, hw, hid⟩ := h
    rw [Kind.enabled, List.any_eq_true]
    exact ⟨w, hσ.workers.mem_iff.mpr hw, by simp [hid]⟩
  | deliver now event => exact h.elim
  | _ => rfl

/-- With leases that have not run out, Sweep C spares the live workers. -/
theorem Simulates.spares (hσ : Simulates σ φ) (hcoh : Coherent φ.db.tables φ.db.seq)
    (hleased : ∀ w ∈ φ.workers, Leased φ.db.tables set.runningGrace φ.clock w.1) {k : Kind}
    (h : k.issuable set φ) (pick : Nat → Bool) : k.sparesLive σ pick := by
  cases k with
  | sweepC now now' grace batchSize =>
    obtain ⟨hnow, rfl⟩ := h
    intro r hr _ hstale _ w hw hid
    obtain ⟨r', hr', hid', at_, hat, hle⟩ := hleased w (hσ.workers.mem_iff.mp hw)
    rw [hσ.tables] at hr
    rw [hcoh.run_eq hr hr' (hid.symm.trans hid'.symm), hat, Option.all_some, decide_eq_true_eq] at hstale
    omega
  | _ => trivial

/-- The live workers after a transaction worked before, or have just claimed. -/
theorem Runs.worked {k : Kind} {pick : Nat → Bool} {res : Except Err Bool}
    (h : Runs set φ φ' k pick res) {w : Nat × Nat} (hw : w ∈ φ'.workers) :
    w ∈ φ.workers ∨ k = .claim φ.clock w.1 w.2 ∧ res = .ok true := by
  have hin := h.workers.mem_iff.mp hw
  have hissue := h.issuable
  cases k with
  | claim now runId jobId =>
    obtain ⟨rfl, -⟩ := hissue
    cases res with
    | error e => exact .inl hin
    | ok won =>
      cases won with
      | false => exact .inl hin
      | true =>
        rcases List.mem_cons.mp hin with rfl | hin
        · exact .inr ⟨rfl, rfl⟩
        · exact .inl hin
  | finish now runId jobId outcome =>
    cases res <;> exact .inl (List.mem_of_mem_erase hin)
  | _ =>
    rw [after_same (by simp) (by simp)] at hin
    exact .inl hin

/-- The heartbeats that a transaction writes are of now. -/
theorem renews_now {k : Kind} (h : k.issuable set φ) {at_ : Int} (hat : k.renews at_) :
    at_ = φ.clock := by
  cases k with
  | claim now runId jobId | heartbeat now runId => exact hat.trans h.1
  | _ => cases hat

/-- The atomic system in `σ` is the fleet in `φ`, whose leases have not run out. -/
structure Refined (set : Settings) (σ : Sys) (φ : Fleet) : Prop where
  sound : φ.Sound
  simulates : Simulates σ φ
  leased : ∀ w ∈ φ.workers, Leased φ.db.tables set.runningGrace φ.clock w.1

theorem Refined.rests (h : Refined set σ φ) (hsound : φ'.Sound) {a : FleetAct} (ha : Timely set φ a)
    (hrests : Rests φ φ' a) : ∃ σ', Sys.Steps set.cfg Sys.AtomicOk σ σ' ∧ Refined set σ' φ' := by
  have hσ := h.simulates
  have hsub : ∀ w ∈ φ'.workers, w ∈ φ.workers := by
    intro w hw
    rcases hrests.workers with hperm | ⟨v, hperm⟩
    · exact hperm.mem_iff.mp hw
    · exact List.mem_of_mem_erase (hperm.mem_iff.mp hw)
  have hleased : ∀ w ∈ φ'.workers, Leased φ'.db.tables set.runningGrace φ'.clock w.1 := by
    intro w hw
    obtain ⟨r, hr, hid, at_, hat, hle⟩ := h.leased w (hsub w hw)
    rw [hrests.db]
    refine ⟨r, hr, hid, at_, hat, ?_⟩
    rcases hrests.clock with hclock | ⟨d, rfl, hclock⟩
    · rwa [hclock]
    · rw [hclock]
      exact ha w (hsub w hw) r hr hid at_ hat
  have htables : σ.tables = φ'.db.tables := hσ.tables.trans (congrArg _ hrests.db.symm)
  have hseq : σ.seq = φ'.db.seq := hσ.seq.trans (congrArg _ hrests.db.symm)
  rcases hrests.workers with hperm | ⟨⟨runId, jobId⟩, hperm⟩
  · exact ⟨σ, .refl, hsound,
      ⟨htables, hseq, hσ.sessions, hσ.workers.trans hperm.symm⟩, hleased⟩
  · exact ⟨{ σ with workers := σ.workers.erase (runId, jobId) },
      .step (a := .crash runId jobId) .refl trivial rfl, hsound,
      ⟨htables, hseq, hσ.sessions, (hσ.workers.erase _).trans hperm.symm⟩, hleased⟩

/-- A transaction leaves the live workers their leases, and gives one to the run that it claims. -/
theorem Runs.leased {k : Kind} {pick : Nat → Bool} {res : Except Err Bool}
    (h : Runs set φ φ' k pick res) (hcoh : Coherent φ.db.tables φ.db.seq)
    (hgrace : 0 ≤ set.runningGrace)
    (hleased : ∀ w ∈ φ.workers, Leased φ.db.tables set.runningGrace φ.clock w.1)
    {w : Nat × Nat} (hw : w ∈ φ'.workers) :
    Leased φ'.db.tables set.runningGrace φ'.clock w.1 := by
  rw [h.clock]
  rcases h.worked hw with hold | ⟨rfl, rfl⟩
  · obtain ⟨r, hr, hid, at_, hat, hle⟩ := hleased w hold
    obtain ⟨v, hv, hmoves⟩ := alone_moves h.alone r hr
    refine ⟨v, hv, hmoves.sameRun.runId.trans hid, ?_⟩
    rcases hmoves.heartbeat with hsame | ⟨at', hnew, hat'⟩
    · exact ⟨at_, hsame.trans hat, hle⟩
    · exact ⟨at', hat', by rw [renews_now h.issuable hnew]; omega⟩
  · -- the run could be claimed before and is RUNNING now, so the claim has changed it
    obtain ⟨-, r, hr, hid, hjob, -⟩ := h.issuable
    obtain ⟨v, hv, hmoves⟩ := alone_moves h.alone r hr
    refine ⟨v, hv, hmoves.sameRun.runId.trans hid, φ.clock, ?_, by omega⟩
    refine hmoves.claimed.resolve_left fun hsame => ?_
    subst hsame
    have hends : (true = true ↔ φ.Claimable w.1) ∧
        (true = true → φ'.db.tables.RunsAre [w.1] .running) :=
      Db.alone_ends (Q := fun won t => (won = true ↔ φ.Claimable w.1) ∧
        (won = true → t.RunsAre [w.1] .running)) eq_aging hcoh.jobs (claimTxn_ends w.1 w.2) h.alone
    obtain ⟨hwon, hend⟩ := hends
    obtain ⟨x, hx, hxid, hclaimable⟩ := hwon.mp rfl
    have hrunning := hend rfl v hv (by simp [hid])
    rw [hcoh.run_eq hx hr (hxid.trans hid.symm), hrunning] at hclaimable
    cases hclaimable

theorem Refined.runs (h : Refined set σ φ) (hgrace : 0 ≤ set.runningGrace) (hsound : φ'.Sound)
    {k : Kind} {pick : Nat → Bool} {res : Except Err Bool} (hruns : Runs set φ φ' k pick res) :
    ∃ σ', Sys.Steps set.cfg Sys.AtomicOk σ σ' ∧ Refined set σ' φ' := by
  have hcoh := h.sound.coherent
  obtain ⟨σ', hstep, hσ'⟩ := hruns.atomic h.simulates (h.simulates.enabled hruns.issuable)
  have hspares := h.simulates.spares hcoh h.leased hruns.issuable pick
  exact ⟨σ', .step (a := .atomic k φ.clock pick) .refl hspares hstep, hsound, hσ',
    fun w hw => hruns.leased hcoh hgrace h.leased hw⟩

/-- The atomic system follows every run of the fleet. -/
theorem Refined.steps (h : Refined set σ φ) (hgrace : 0 ≤ set.runningGrace)
    (hsteps : Steps set (Timely set) φ φ') :
    ∃ σ', Sys.Steps set.cfg Sys.AtomicOk σ σ' ∧ Refined set σ' φ' := by
  induction hsteps with
  | refl => exact ⟨σ, .refl, h⟩
  | step hsteps ha hstep ih =>
    obtain ⟨σ₁, hto, hrefined⟩ := ih
    have hsound := (hsteps.step ha hstep).sound h.sound
    obtain ⟨σ', hon, hrefined'⟩ : ∃ σ', Sys.Steps set.cfg Sys.AtomicOk σ₁ σ' ∧ Refined set σ' _ := by
      rcases step_runs hrefined.sound hstep with hrests | ⟨k, pick, res, hruns⟩
      · exact hrefined.rests hsound ha hrests
      · exact hrefined.runs hgrace hsound hruns
    exact ⟨σ', hto.trans hon, hrefined'⟩

/-- A state is reached by a run from the empty system. -/
theorem Reach.run {ok : Fleet → FleetAct → Prop} (h : Reach set ok φ) :
    ∃ clock, Steps set ok { clock := clock } φ := by
  induction h with
  | init clock => exact ⟨clock, .refl⟩
  | step _ ha hstep ih =>
    obtain ⟨clock, hsteps⟩ := ih
    exact ⟨clock, hsteps.step ha hstep⟩

/-- A fleet whose live workers renew their leases in time is the atomic system in which Sweep C spares
live workers: that system reaches the same database with the same live workers, and from there it
follows whatever the fleet does.  No two live workers have one run, and the run of each is RUNNING
under a lease that has not run out. -/
theorem refines_atomic (hgrace : 0 ≤ set.runningGrace) (hreach : Reach set (Timely set) φ) :
    (∃ σ, Sys.Reach set.cfg Sys.AtomicOk σ ∧ Simulates σ φ ∧
      ∀ φ', Steps set (Timely set) φ φ' →
        ∃ σ', Sys.Steps set.cfg Sys.AtomicOk σ σ' ∧ Simulates σ' φ') ∧
      (φ.workers.map (·.1)).Nodup ∧
      ∀ w ∈ φ.workers, ∃ r ∈ φ.db.tables.runs, r.runId = w.1 ∧ r.jobId = w.2 ∧ r.status = .running ∧
        ∃ h, r.heartbeatAt = some h ∧ φ.clock ≤ h + set.runningGrace := by
  obtain ⟨clock, hsteps⟩ := hreach.run
  have hinit : Refined set {} { clock := clock } :=
    ⟨(Reach.init clock : Reach set (Timely set) _).sound, ⟨rfl, rfl, rfl, .refl _⟩, by simp [workers]⟩
  obtain ⟨σ, hto, href⟩ := hinit.steps hgrace hsteps
  have hσreach := Sys.Reach.init.steps hto
  have hσ := href.simulates
  refine ⟨⟨σ, hσreach, hσ, fun φ' hon => ?_⟩, ?_, fun w hw => ?_⟩
  · obtain ⟨σ', hσsteps, href'⟩ := href.steps hgrace hon
    exact ⟨σ', hσsteps, href'.simulates⟩
  · obtain ⟨hbase, -⟩ := hσreach.changes (fun _ _ h => h) (fun _ => True) (fun _ _ _ _ _ => trivial)
      (fun _ => True) trivial (fun _ _ _ _ _ _ _ => trivial)
    exact ((hσ.workers.map (·.1)).nodup_iff).mp hbase.live.nodup
  · obtain ⟨hbase, -⟩ := hσreach.changes (fun _ _ h => h) (fun _ => True) (fun _ _ _ _ _ => trivial)
      (fun _ => True) trivial (fun _ _ _ _ _ _ _ => trivial)
    obtain ⟨r, hr, hid, hjob, hs⟩ := hbase.live.running w (hσ.workers.mem_iff.mpr hw)
    obtain ⟨r', hr', hid', hlease⟩ := href.leased w hw
    rw [hσ.tables] at hr
    have hsame := href.sound.coherent.run_eq hr hr' (hid.trans hid'.symm)
    subst hsame
    exact ⟨r, hr, hid, hjob, hs, hlease⟩

/-- Whether the step is timely. -/
def timely (set : Settings) (φ : Fleet) : FleetAct → Bool
  | .tick d => φ.workers.all fun w => φ.db.tables.runs.all fun r =>
    r.runId != w.1 || r.heartbeatAt.all fun h => decide (φ.clock + d ≤ h + set.runningGrace)
  | _ => true

theorem timely_iff (a : FleetAct) : timely set φ a = true ↔ Timely set φ a := by
  cases a with
  | tick d => simp [timely, Timely, Option.all_eq_true, ← imp_iff_not_or]
  | _ => simp [timely, Timely]

/-- A run of the listed steps, if each is possible and satisfies `p`. -/
def checkActs (set : Settings) (p : Fleet → FleetAct → Bool) (φ : Fleet) :
    List FleetAct → Option Fleet
  | [] => some φ
  | a :: as => if p φ a then (φ.step set a).bind fun φ' => checkActs set p φ' as else none

theorem Reach.checkActs {ok : Fleet → FleetAct → Prop} {p : Fleet → FleetAct → Bool}
    (hp : ∀ φ a, p φ a = true → ok φ a) {as : List FleetAct} (h : Reach set ok φ)
    (hrun : Fleet.checkActs set p φ as = some φ') : Reach set ok φ' := by
  induction as generalizing φ with
  | nil =>
    cases hrun
    exact h
  | cons a as ih =>
    simp only [Fleet.checkActs] at hrun
    split at hrun
    · next hpa =>
      obtain ⟨φ₁, hstep, hrest⟩ := Option.bind_eq_some_iff.mp hrun
      exact ih (h.step (hp _ _ hpa) hstep) hrest
    · cases hrun

/-- A worker renews its lease after 100 s, and Sweep C runs 100 s later. -/
def renewedRun : List FleetAct :=
  [.other (.create 0 (.echo none none none)) fun _ => true, .begin_ .watcher,
    .publish 0 10 fun _ => true, .send 0 true, .receive 0, .claim 1, .tick 100000000,
    .heartbeat 1, .tick 100000000, .begin_ .sweepC, .sweepC 2 100 fun _ => true]

/-- The run started longer ago than the grace, and is left to its worker. -/
theorem renewedRun_refines : ∃ φ, checkActs .default (timely .default) {} renewedRun = some φ ∧
    φ.workers = [(1, 1)] ∧
    (∃ r ∈ φ.db.tables.runs, r.runId = 1 ∧ r.status = .running ∧ r.startAt = some 0 ∧
      Settings.default.runningGrace < φ.clock) ∧
    ∃ σ, Sys.Reach .minutely Sys.AtomicOk σ ∧ Simulates σ φ := by
  have hrun : (checkActs .default (timely .default) {} renewedRun).map (fun φ => decide
      (φ.workers = [(1, 1)] ∧ ∃ r ∈ φ.db.tables.runs, r.runId = 1 ∧ r.status = .running ∧
        r.startAt = some 0 ∧ Settings.default.runningGrace < φ.clock)) = some true := by
    decide +kernel
  obtain ⟨φ, hφ, hend⟩ := Option.map_eq_some_iff.mp hrun
  obtain ⟨hworkers, hlate⟩ := of_decide_eq_true hend
  have hreach : Reach .default (Timely .default) φ :=
    (Reach.init 0).checkActs (fun _ a h => (timely_iff a).mp h) hφ
  obtain ⟨⟨σ, hσ, hsim, -⟩, -⟩ := refines_atomic (by decide) hreach
  exact ⟨φ, hφ, hworkers, hlate, σ, hσ, hsim⟩

end Fleet

end TaskScheduler
