import TaskScheduler.Fleet.Enters

/-! No run starts early: whatever the queue holds and the processes have in hand, the run of it is
due, up to one second, when the message becomes visible. -/

namespace TaskScheduler

open Lib

/-! ### Transactions that are alone -/

/-- A transaction whose result is dropped ends as it does. -/
theorem alone_quiet {α : Type} {t : Txn α} {start : Int} {pick : Nat → Bool} {x y : Db}
    {res : Except Err α} (h : x.alone start pick t = some (res, y)) :
    ∃ res', x.alone start pick t.quiet = some (res', y) := by
  unfold Db.alone at h ⊢
  unfold Txn.quiet
  rw [Program.run_bind]
  cases hrun : t.run (Stmt.exec pick [] x.tables) (x.seq, { start }) with
  | none =>
    rw [hrun] at h
    cases h
  | some g =>
    rw [hrun] at h
    obtain ⟨_ | a, seq, ses⟩ := g
    · cases h
      exact ⟨_, rfl⟩
    · cases h
      exact ⟨_, rfl⟩

/-- A transaction of a process keeps the tables coherent. -/
theorem alone_coherent (cfg : Config) (k : Kind) {start : Int} {pick : Nat → Bool} {x y : Db}
    {res : Except Err Bool} (hcoh : Coherent x.tables x.seq) (hready : k.Ready x.tables)
    (h : x.alone start pick (k.prog cfg) = some (res, y)) : Coherent y.tables y.seq := by
  have hends : ∀ {res seq ses}, (k.prog cfg).run (Stmt.exec pick [] x.tables) (x.seq, { start }) =
      some (res, seq, ses) → x.seq.le seq ∧
        ∀ won, res = .ok won → Commits .free cfg.libs k x.tables seq ses won := by
    intro res seq ses hrun
    obtain ⟨hle, -, -, hc⟩ := atomic_commits (fun _ => True) trivial
      (fun _ _ _ _ _ _ _ _ _ _ => trivial) hcoh hready (by simp) hrun
    exact ⟨hle, hc⟩
  unfold Db.alone at h
  split at h
  · cases h
  · next won seq ses hrun =>
    cases h
    obtain ⟨hle, hc⟩ := hends hrun
    exact (hc won rfl).coherent (hcoh.burn hle)
  · next e seq ses hrun =>
    cases h
    exact hcoh.burn (hends hrun).1

theorem Kind.outside_ready {k : Kind} (h : k.outside = true) (t : Tables) : k.Ready t := by
  cases k <;> trivial

/-- The API and the consumer give no status but CANCELLED. -/
theorem Kind.outside_issues {k : Kind} (h : k.outside = true) (cfg : Config) :
    (k.prog cfg).Issues (Stmt.Enters fun _ s => s = .cancelled) := by
  cases k with
  | create now args => exact (createJob_issues cfg.libs now args).bind fun _ => trivial
  | poll now batchSize =>
    exact (pollOnce_issues cfg.libs now cfg.depth batchSize).bind fun _ => trivial
  | cancel now userId jobId =>
    have hcancel := cancelJob_issues (E := fun _ s => s = .cancelled) now cfg.depth userId jobId
      fun _ => rfl
    exact hcancel.bind fun _ => trivial
  | _ => cases h

/-! ### What is due -/

/-- There is a run with these keys, and it is due before `now`, up to one second. -/
def Tables.Due (t : Tables) (runId jobId : Nat) (now : Int) : Prop :=
  ∃ r ∈ t.runs, r.runId = runId ∧ r.jobId = jobId ∧ r.scheduledAt - second < now

namespace Tables.Due

variable {t t' : Tables} {runId jobId : Nat} {now now' : Int}

theorem mono (h : t.Due runId jobId now) (hle : now ≤ now') : t.Due runId jobId now' := by
  obtain ⟨r, hr, hid, hjob, hdue⟩ := h
  exact ⟨r, hr, hid, hjob, hdue.trans_le hle⟩

theorem enters {E : Nat → RunStatus → Prop} (h : t.Due runId jobId now) (he : t.Enters E t') :
    t'.Due runId jobId now := by
  obtain ⟨r, hr, hid, hjob, hdue⟩ := h
  obtain ⟨r', hr', hs⟩ := he.forth r hr
  exact ⟨r', hr', hs.runId.trans hid, hs.jobId.trans hjob, hs.scheduledAt ▸ hdue⟩

/-- The run that is due is the one with this key. -/
theorem of_run {seq : Seq} (h : t.Due runId jobId now) (hcoh : Coherent t seq) {r : JobRun}
    (hr : r ∈ t.runs) (hid : r.runId = runId) : r.scheduledAt - second < now := by
  obtain ⟨r', hr', hid', -, hdue⟩ := h
  rw [hcoh.run_eq hr hr' (hid.trans hid'.symm)]
  exact hdue

end Tables.Due

/-- The delay of an entry that the watcher sends: it is within the lookahead, and at its end the run
is due up to one second. -/
theorem delaySeconds_bounds {now scheduledAt : Int} (h : scheduledAt < now + lookahead) :
    0 ≤ delaySeconds now scheduledAt ∧ delaySeconds now scheduledAt < 300 ∧
      scheduledAt - second < now + delaySeconds now scheduledAt * second := by
  unfold delaySeconds
  unfold lookahead second at h
  unfold second
  rcases le_or_gt scheduledAt now with hpast | hfuture
  · have hneg : (scheduledAt - now).tdiv 1000000 = -((now - scheduledAt).tdiv 1000000) := by
      rw [← Int.neg_tdiv, Int.neg_sub]
    rw [hneg, Int.tdiv_eq_ediv_of_nonneg (by omega)]
    omega
  · rw [Int.tdiv_eq_ediv_of_nonneg (by omega)]
    omega

/-- What holds of a process: its reading of the clock is in the past, its entries will be due when
they are visible, and so is the message that it works on. -/
def Proc.Sound (t : Tables) (clock : Int) : Proc → Prop
  | .ready _ now => now ≤ clock
  | .sending es => ∀ e ∈ es, 0 ≤ e.delaySeconds ∧ e.delaySeconds < 300 ∧
    t.Due e.runId e.jobId (clock + e.delaySeconds * second)
  | .received m | .working m | .deleting m => t.Due m.runId m.jobId clock

theorem Proc.Sound.mono {t t' : Tables} {clock clock' : Int} {E : Nat → RunStatus → Prop}
    {p : Proc} (h : p.Sound t clock) (he : t.Enters E t') (hle : clock ≤ clock') :
    p.Sound t' clock' := by
  cases p with
  | ready role now => exact Int.le_trans h hle
  | sending es =>
    intro e hmem
    obtain ⟨hpos, hlt, hdue⟩ := h e hmem
    exact ⟨hpos, hlt, (hdue.enters he).mono (by omega)⟩
  | received m | working m | deleting m => exact (Tables.Due.enters h he).mono hle

namespace Fleet

variable {set : Settings} {φ φ' : Fleet}

/-! ### The processes -/

theorem proc_become {i j : Nat} {q : Option Proc} {p : Proc} (h : (φ.become i q).proc j = some p) :
    (j = i ∧ q = some p) ∨ (j ≠ i ∧ φ.proc j = some p) := by
  simp only [proc, become, Option.join_eq_some_iff, List.getElem?_set] at h ⊢
  split at h
  · next heq =>
    split at h
    · exact .inl ⟨heq.symm, Option.some.inj h⟩
    · cases h
  · next hne => exact .inr ⟨Ne.symm hne, h⟩

theorem proc_launch {j : Nat} {q p : Proc} (h : (φ.launch q).proc j = some p) :
    φ.proc j = some p ∨ (j = φ.procs.length ∧ p = q) := by
  simp only [proc, launch, Option.join_eq_some_iff] at h ⊢
  rw [List.getElem?_append] at h
  split at h
  · exact .inl h
  · next hlen =>
    obtain ⟨hlt, heq⟩ := List.getElem?_eq_some_iff.mp h
    simp only [List.length_singleton] at hlt
    simp only [List.getElem_singleton, Option.some.injEq] at heq
    exact .inr ⟨by omega, heq.symm⟩

theorem posts_same (es : List Entry) (φ : Fleet) : (es.foldl post φ).db = φ.db ∧
    (es.foldl post φ).clock = φ.clock ∧ (es.foldl post φ).procs = φ.procs := by
  induction es generalizing φ with
  | nil => exact ⟨rfl, rfl, rfl⟩
  | cons e es ih => exact ih (φ.post e)

/-! ### The invariant -/

/-- The tables are coherent, a RUNNING run is due, and so is the run of every message once it is
visible, and what the processes have in hand. -/
structure Sound (φ : Fleet) : Prop where
  coherent : Coherent φ.db.tables φ.db.seq
  running : ∀ r ∈ φ.db.tables.runs, r.status = .running → r.scheduledAt - second < φ.clock
  messages : ∀ m ∈ φ.messages, φ.db.tables.Due m.runId m.jobId m.visibleAt
  procs : ∀ i p, φ.proc i = some p → p.Sound φ.db.tables φ.clock

namespace Sound

theorem become (h : φ.Sound) (i : Nat) {q : Option Proc}
    (hq : ∀ p, q = some p → p.Sound φ.db.tables φ.clock) : (φ.become i q).Sound := by
  refine ⟨h.coherent, h.running, h.messages, fun j p hp => ?_⟩
  rcases proc_become hp with ⟨-, heq⟩ | ⟨-, hj⟩
  · exact hq p heq
  · exact h.procs j p hj

theorem launch (h : φ.Sound) {q : Proc} (hq : q.Sound φ.db.tables φ.clock) :
    (φ.launch q).Sound := by
  refine ⟨h.coherent, h.running, h.messages, fun j p hp => ?_⟩
  rcases proc_launch hp with hj | ⟨-, rfl⟩
  · exact h.procs j p hj
  · exact hq

theorem post (h : φ.Sound) {e : Entry}
    (he : φ.db.tables.Due e.runId e.jobId (φ.clock + e.delaySeconds * second)) :
    (φ.post e).Sound := by
  refine ⟨h.coherent, h.running, fun m hm => ?_, h.procs⟩
  rcases List.mem_append.mp hm with hm | hm
  · exact h.messages m hm
  · rw [List.mem_singleton.mp hm]
    exact he

theorem posts (h : φ.Sound) (es : List Entry)
    (hes : ∀ e ∈ es, φ.db.tables.Due e.runId e.jobId (φ.clock + e.delaySeconds * second)) :
    (es.foldl Fleet.post φ).Sound := by
  induction es generalizing φ with
  | nil => exact h
  | cons e es ih =>
    exact ih (h.post (hes e List.mem_cons_self)) fun e' he' => hes e' (List.mem_cons_of_mem _ he')

/-- The database moves on, and the runs that have entered RUNNING are due. -/
theorem move {E : Nat → RunStatus → Prop} (h : φ.Sound) {db : Db} (hcoh : Coherent db.tables db.seq)
    (he : φ.db.tables.Enters E db.tables)
    (hE : ∀ id, E id .running → ∃ jobId, φ.db.tables.Due id jobId φ.clock) :
    Sound { φ with db := db } := by
  refine ⟨hcoh, fun r' hr' hs => ?_, fun m hm => (h.messages m hm).enters he,
    fun i p hp => (h.procs i p hp).mono he le_rfl⟩
  rcases he.back r' hr' with ⟨r, hr, hrr', heq⟩ | hpending | henter
  · have hdue := h.running r hr (heq ▸ hs)
    rwa [← hrr'.scheduledAt] at hdue
  · rw [hs] at hpending
    cases hpending
  · rw [hs] at henter
    obtain ⟨jobId, hdue⟩ := hE _ henter
    exact (hdue.enters he).of_run hcoh hr' rfl

end Sound

/-- A process that runs a transaction. -/
theorem Sound.transact {α : Type} {E : Nat → RunStatus → Prop} (h : φ.Sound) {i : Nat}
    {pick : Nat → Bool} {t : Txn α} {next : α → Option Proc} (cfg : Config) (k : Kind)
    (hkind : ∀ {res y}, φ.alone pick t = some (res, y) →
      ∃ res', φ.alone pick (k.prog cfg) = some (res', y))
    (hready : k.Ready φ.db.tables) (ht : t.Issues (Stmt.Enters E))
    (hE : ∀ id, E id .running → ∃ jobId, φ.db.tables.Due id jobId φ.clock)
    (hnext : ∀ a y, φ.alone pick t = some (.ok a, y) → ∀ p, next a = some p →
      p.Sound φ.db.tables φ.clock)
    (hstep : φ.transact i pick t next = some φ') : φ'.Sound := by
  unfold Fleet.transact at hstep
  split at hstep
  · cases hstep
  · next a db hres =>
    cases hstep
    obtain ⟨_, hk⟩ := hkind hres
    exact (h.become i (hnext a db hres)).move (alone_coherent cfg k h.coherent hready hk)
      (alone_enters ht hres) hE
  · next e db hres =>
    cases hstep
    obtain ⟨_, hk⟩ := hkind hres
    exact (h.become i (q := none) (by simp)).move (alone_coherent cfg k h.coherent hready hk)
      (alone_enters ht hres) hE

/-! ### What the sweeps return -/

section Returned

variable {pick : Nat → Bool} {now now' grace : Int} {batchSize : Nat} {runs : List JobRun}
  {x y : Db} {start : Int}

theorem mem_lockable {p : JobRun → Bool} {limit : Nat} {r : JobRun}
    (h : r ∈ x.lockable pick p limit) : r ∈ x.tables.runs ∧ p r = true := by
  have hmem := List.mem_filter.mp (List.mem_of_mem_take h)
  simp only [Bool.and_eq_true] at hmem
  exact ⟨hmem.1, hmem.2.1⟩

theorem claimAndPublish_returns
    (h : x.alone start pick (claimAndPublish now batchSize) = some (.ok runs, y)) :
    ∀ r ∈ runs, r ∈ x.tables.runs ∧ r.scheduledAt < now + lookahead := by
  unfold claimAndPublish at h
  refine Db.alone_lock_returns (Q := fun runs => ∀ r ∈ runs, r ∈ x.tables.runs ∧
    r.scheduledAt < now + lookahead) ?_ h
  split
  · exact fun r hr => by cases hr
  · refine .bind _ fun _ => .bind _ fun _ => fun r hr => ?_
    obtain ⟨hmem, hp⟩ := mem_lockable hr
    simp only [Bool.and_eq_true, decide_eq_true_eq] at hp
    exact ⟨hmem, hp.2⟩

theorem sweepQueuedStuck_returns {sent : Nat → Bool}
    (h : x.alone start pick (sweepQueuedStuck now now' grace batchSize sent) = some (.ok runs, y)) :
    ∀ r ∈ runs, r ∈ x.tables.runs ∧ r.scheduledAt < now := by
  unfold sweepQueuedStuck at h
  refine Db.alone_lock_returns (Q := fun runs => ∀ r ∈ runs, r ∈ x.tables.runs ∧
    r.scheduledAt < now) ?_ h
  refine .bind _ fun _ => fun r hr => ?_
  obtain ⟨hmem, hp⟩ := mem_lockable hr
  simp only [Bool.and_eq_true, decide_eq_true_eq] at hp
  exact ⟨hmem, hp.2⟩

theorem sweepRunningOrphan_returns {registry : String → Option ActionHandler}
    (h : x.alone start pick (sweepRunningOrphan registry now now' grace batchSize) =
      some (.ok runs, y)) :
    ∀ r ∈ runs, r ∈ x.tables.runs ∧ r.status = .running := by
  unfold sweepRunningOrphan at h
  refine Db.alone_lock_returns (Q := fun runs => ∀ r ∈ runs, r ∈ x.tables.runs ∧
    r.status = .running) ?_ h
  split
  · exact fun r hr => by cases hr
  · refine .bind _ fun _ => .bind _ fun _ => fun r hr => ?_
    obtain ⟨hmem, hp⟩ := mem_lockable (List.mem_filter.mp hr).1
    simp only [Bool.and_eq_true, beq_iff_eq] at hp
    exact ⟨hmem, hp.1⟩

end Returned

/-! ### Every step -/

namespace Sound

theorem entries_sound {t : Tables} {clock now : Int} (hnow : now ≤ clock) {runs : List JobRun}
    (hruns : ∀ r ∈ runs, r ∈ t.runs ∧ r.scheduledAt < now + lookahead) :
    (Proc.sending (entries now runs)).Sound t clock := by
  intro e he
  obtain ⟨r, hr, rfl⟩ := List.mem_map.mp he
  obtain ⟨hmem, hsoon⟩ := hruns r hr
  obtain ⟨hpos, hlt, hdue⟩ := delaySeconds_bounds hsoon
  refine ⟨hpos, hlt, r, hmem, rfl, rfl, hdue.trans_le ?_⟩
  exact Int.add_le_add_right hnow _

theorem entriesNow_sound {t : Tables} {clock : Int} {runs : List JobRun}
    (hruns : ∀ r ∈ runs, r ∈ t.runs ∧ r.scheduledAt - second < clock) :
    (Proc.sending (runs.map entryNow)).Sound t clock := by
  intro e he
  obtain ⟨r, hr, rfl⟩ := List.mem_map.mp he
  obtain ⟨hmem, hdue⟩ := hruns r hr
  exact ⟨le_rfl, by simp [entryNow], r, hmem, rfl, rfl, by simpa [entryNow] using hdue⟩

/-- Messages that are copies of messages, up to their ids and the queue they are in. -/
theorem queue (h : φ.Sound) {messages : List Message} {n : Nat}
    (hsub : ∀ m ∈ messages, ∃ m' ∈ φ.messages, m'.runId = m.runId ∧ m'.jobId = m.jobId ∧
      m'.visibleAt = m.visibleAt) :
    Sound { φ with messages := messages, nextMessage := n } := by
  refine ⟨h.coherent, h.running, fun m hm => ?_, h.procs⟩
  obtain ⟨m', hm', hrun, hjob, hvisible⟩ := hsub m hm
  rw [← hrun, ← hjob, ← hvisible]
  exact h.messages m' hm'

theorem step (h : φ.Sound) {a : FleetAct} (hstep : φ.step set a = some φ') : φ'.Sound := by
  cases a with
  | tick d =>
    cases hstep
    have hle : φ.clock ≤ φ.clock + d := by omega
    exact ⟨h.coherent, fun r hr hs => (h.running r hr hs).trans_le hle, h.messages,
      fun i p hp => (h.procs i p hp).mono (.refl (fun _ _ => False) _) hle⟩
  | other k pick =>
    simp only [Fleet.step] at hstep
    split at hstep
    · next hout =>
      obtain ⟨⟨res, db⟩, hres, rfl⟩ := Option.map_eq_some_iff.mp hstep
      exact h.move (alone_coherent set.cfg k h.coherent (Kind.outside_ready hout _) hres)
        (alone_enters (Kind.outside_issues hout set.cfg) hres) (by simp)
    · cases hstep
  | begin_ role =>
    cases hstep
    exact h.launch (Int.le_refl _)
  | publish i batchSize pick =>
    simp only [Fleet.step] at hstep
    split at hstep
    · next now hi =>
      have hnow : now ≤ φ.clock := h.procs i _ hi
      refine h.transact set.cfg (.publish now batchSize) (E := fun _ s => s = .queued)
        alone_quiet trivial (claimAndPublish_issues _ _ fun _ => rfl) (by simp) ?_ hstep
      rintro runs db hres p ⟨⟩
      exact entries_sound hnow (claimAndPublish_returns hres)
    · cases hstep
  | sweepA i batchSize pick =>
    simp only [Fleet.step] at hstep
    split at hstep
    · next now hi =>
      exact h.transact set.cfg (.sweepA now set.dlqGrace batchSize)
        (E := fun _ s => s = .failed) alone_quiet trivial
        (sweepDlqRetrying_issues _ _ _ fun _ => rfl) (by simp) (by simp) hstep
    · cases hstep
  | sweepB i batchSize pick sent arrives commits =>
    simp only [Fleet.step] at hstep
    split at hstep
    · next now hi =>
      have hnow : now ≤ φ.clock := h.procs i _ hi
      split at hstep
      · next runs db hres =>
        cases hstep
        obtain ⟨_, hk⟩ := alone_quiet hres
        have hcoh : Coherent db.tables db.seq := alone_coherent set.cfg
          (.sweepB now φ.clock set.queuedGrace batchSize sent) h.coherent trivial hk
        have hes := sweepQueuedStuck_returns hres
        have hposts : (((runs.filter fun r => arrives r.runId).map entryNow).foldl Fleet.post
            (φ.become i none)).Sound := by
          refine (h.become i (by simp)).posts _ fun e he => ?_
          obtain ⟨r, hr, rfl⟩ := List.mem_map.mp he
          obtain ⟨hmem, hpast⟩ := hes r (List.mem_filter.mp hr).1
          refine ⟨r, hmem, rfl, rfl, ?_⟩
          simp only [Fleet.become, entryNow, second]
          omega
        have hsame := posts_same ((runs.filter fun r => arrives r.runId).map entryNow)
          (φ.become i none)
        have henters : φ.db.tables.Enters (fun _ _ => False) db.tables :=
          alone_enters (sweepQueuedStuck_issues _ _ _ _ _) hres
        split
        · exact hposts.move hcoh (hsame.1 ▸ henters) (by simp)
        · refine hposts.move h.coherent ?_ (E := fun _ _ => False) (by simp)
          rw [hsame.1]
          exact .refl _ _
      · next e db hres =>
        cases hstep
        obtain ⟨_, hk⟩ := alone_quiet hres
        exact (h.become i (q := none) (by simp)).move (E := fun _ _ => False)
          (alone_coherent set.cfg
            (.sweepB now φ.clock set.queuedGrace batchSize sent) h.coherent trivial hk)
          (alone_enters (sweepQueuedStuck_issues _ _ _ _ _) hres) (by simp)
      · cases hstep
    · cases hstep
  | sweepC i batchSize pick =>
    simp only [Fleet.step] at hstep
    split at hstep
    · next now hi =>
      refine h.transact set.cfg (.sweepC now φ.clock set.runningGrace batchSize)
        (E := fun _ s => s = .queued ∨ s = .failed) alone_quiet trivial
        (sweepRunningOrphan_issues _ _ _ _ _ (fun _ => .inl rfl) fun _ => .inr rfl) (by simp) ?_
        hstep
      rintro runs db hres p ⟨⟩
      refine entriesNow_sound fun r hr => ?_
      obtain ⟨hmem, hs⟩ := sweepRunningOrphan_returns hres r hr
      exact ⟨hmem, h.running r hmem hs⟩
    · cases hstep
  | send i arrives =>
    simp only [Fleet.step] at hstep
    split at hstep
    · next e es hi =>
      cases hstep
      have hsend := h.procs i _ hi
      have hrest : (φ.become i (some (.sending es))).Sound := by
        refine h.become i ?_
        rintro p ⟨⟩ e' he'
        exact hsend e' (List.mem_cons_of_mem _ he')
      split
      · exact hrest.post (hsend e List.mem_cons_self).2.2
      · exact hrest
    · cases hstep
  | receive k =>
    simp only [Fleet.step] at hstep
    split at hstep
    · next m hm =>
      split at hstep
      · next hvisible =>
        cases hstep
        simp only [Bool.and_eq_true, decide_eq_true_eq] at hvisible
        exact h.launch ((h.messages m (List.mem_of_getElem? hm)).mono hvisible.2)
      · cases hstep
    · cases hstep
  | claim i =>
    simp only [Fleet.step] at hstep
    split at hstep
    · next m hi =>
      have hdue : φ.db.tables.Due m.runId m.jobId φ.clock := h.procs i _ hi
      obtain ⟨r, hr, hid, hjob, -⟩ := id hdue
      refine h.transact set.cfg (.claim φ.clock m.runId m.jobId)
        (E := fun id _ => id = m.runId) (fun hres => ⟨_, hres⟩) ⟨r, hr, hid, hjob⟩
        (claimTxn_issues _ _ rfl) (fun id hid => ⟨m.jobId, hid ▸ hdue⟩) ?_ hstep
      intro won db _ p hp
      split at hp <;> cases hp <;> exact hdue
    · cases hstep
  | heartbeat i =>
    simp only [Fleet.step] at hstep
    split at hstep
    · next m hi =>
      refine h.transact set.cfg (.heartbeat φ.clock m.runId)
        (E := fun _ _ => False) alone_quiet trivial (bumpHeartbeatAt_issues _ _) (by simp) ?_ hstep
      rintro _ db _ p ⟨⟩
      exact h.procs i _ hi
    · cases hstep
  | finish i outcome =>
    simp only [Fleet.step] at hstep
    split at hstep
    · next m hi =>
      have hdue : φ.db.tables.Due m.runId m.jobId φ.clock := h.procs i _ hi
      obtain ⟨r, hr, hid, hjob, -⟩ := id hdue
      refine h.transact set.cfg (.finish φ.clock m.runId m.jobId outcome)
        (E := fun _ s => s = outcome.status) alone_quiet ⟨r, hr, hid, hjob⟩
        (finishTxn_issues _ _ _ rfl) (fun _ hs => absurd hs.symm outcome.status_ne_running) ?_ hstep
      intro _ db _ p hp
      split at hp <;> cases hp
      exact hdue
    · cases hstep
  | delete i =>
    simp only [Fleet.step] at hstep
    split at hstep
    · cases hstep
      exact (h.become i (q := none) (by simp)).queue fun m hm =>
        ⟨m, (List.mem_filter.mp hm).1, rfl, rfl, rfl⟩
    · cases hstep
  | crash i =>
    cases hstep
    exact h.become i (by simp)
  | lose k =>
    cases hstep
    exact h.queue fun m hm => ⟨m, List.mem_of_mem_eraseIdx hm, rfl, rfl, rfl⟩
  | duplicate k =>
    simp only [Fleet.step] at hstep
    split at hstep
    · next m hm =>
      cases hstep
      refine h.queue fun x hx => ?_
      rcases List.mem_append.mp hx with hx | hx
      · exact ⟨x, hx, rfl, rfl, rfl⟩
      · rw [List.mem_singleton.mp hx]
        exact ⟨m, List.mem_of_getElem? hm, rfl, rfl, rfl⟩
    · cases hstep
  | bury k =>
    cases hstep
    refine h.queue fun x hx => ?_
    obtain ⟨j, hj⟩ := List.mem_iff_getElem?.mp hx
    rw [List.getElem?_modify] at hj
    obtain ⟨m, hm, rfl⟩ := Option.map_eq_some_iff.mp hj
    refine ⟨m, List.mem_of_getElem? hm, ?_⟩
    split <;> exact ⟨rfl, rfl, rfl⟩

end Sound

theorem Reach.sound {ok : Fleet → FleetAct → Prop} (h : Reach set ok φ) : φ.Sound := by
  induction h with
  | init clock =>
    exact ⟨⟨by simp, ⟨by simp, by simp⟩, by simp, by simp, by simp, by simp, by simp, by simp,
      by simp⟩, by simp, by simp, by simp [proc]⟩
  | step _ _ hstep ih => exact ih.step hstep

theorem transact_clock {α : Type} {i : Nat} {pick : Nat → Bool} {t : Txn α}
    {next : α → Option Proc} (h : φ.transact i pick t next = some φ') : φ'.clock = φ.clock := by
  unfold transact at h
  split at h <;> cases h <;> rfl

/-- Time passes between the steps of the processes, not in them. -/
theorem step_clock {a : FleetAct} (hstep : φ.step set a = some φ') :
    φ'.clock = φ.clock ∨ φ'.db = φ.db := by
  cases a with
  | tick d =>
    cases hstep
    exact .inr rfl
  | other k pick =>
    simp only [step] at hstep
    split at hstep
    · obtain ⟨_, -, rfl⟩ := Option.map_eq_some_iff.mp hstep
      exact .inl rfl
    · cases hstep
  | publish i batchSize pick | sweepA i batchSize pick | sweepC i batchSize pick | claim i
  | heartbeat i | finish i outcome =>
    simp only [step] at hstep
    split at hstep
    · exact .inl (transact_clock hstep)
    · cases hstep
  | sweepB i batchSize pick sent arrives commits =>
    simp only [step] at hstep
    split at hstep
    · split at hstep <;> cases hstep
      · exact .inl (posts_same _ _).2.1
      · exact .inl rfl
    · cases hstep
  | send i arrives =>
    simp only [step] at hstep
    split at hstep
    · cases hstep
      split <;> exact .inl rfl
    · cases hstep
  | receive k =>
    simp only [step] at hstep
    split at hstep
    · split at hstep
      · cases hstep
        exact .inl rfl
      · cases hstep
    · cases hstep
  | delete i | duplicate k =>
    simp only [step] at hstep
    split at hstep
    · cases hstep
      exact .inl rfl
    · cases hstep
  | begin_ role | crash i | lose k | bury k =>
    cases hstep
    exact .inl rfl

/-- No run starts early: a run that a step makes RUNNING was scheduled for less than a second after
the time of the step, and every delay that a process sends is in [0, 300). -/
theorem no_early_start {ok : Fleet → FleetAct → Prop} (hreach : Reach set ok φ) {a : FleetAct}
    (hstep : φ.step set a = some φ') :
    (∀ r' ∈ φ'.db.tables.runs, r'.status = .running →
      (∀ r ∈ φ.db.tables.runs, r.runId = r'.runId → r.status ≠ .running) →
        φ.clock > r'.scheduledAt - second) ∧
    ∀ i es, φ'.proc i = some (.sending es) → ∀ e ∈ es, 0 ≤ e.delaySeconds ∧ e.delaySeconds < 300 := by
  have hsound := hreach.sound.step hstep
  constructor
  · intro r' hr' hs hnew
    rcases step_clock hstep with hclock | hdb
    · exact hclock ▸ hsound.running r' hr' hs
    · exact absurd hs (hnew r' (hdb ▸ hr') rfl)
  · intro i es hi e he
    obtain ⟨hpos, hlt, -⟩ := hsound.procs i _ hi e he
    exact ⟨hpos, hlt⟩

end Fleet

/-- The grace periods of the settings' defaults. -/
def Settings.default : Settings where
  cfg := .minutely
  dlqGrace := 300 * second
  queuedGrace := 150 * second
  runningGrace := 180 * second

namespace Fleet

/-- The first run of a recurring job, published 59.999999 s ahead with a delay of 59 s, which a worker
receives as soon as it is visible. -/
def aheadRun : List FleetAct :=
  [.tick 1, .other (.create 1 (.echo (some "* * * * *") none none)) fun _ => true,
    .begin_ .watcher, .publish 0 10 fun _ => true, .send 0 true, .tick 59000000, .receive 0]

theorem aheadRun_starts : ∃ φ φ', runActs .default {} aheadRun = some φ ∧
    φ.step .default (.claim 1) = some φ' ∧
    ∃ r' ∈ φ'.db.tables.runs, r'.status = .running ∧ r'.scheduledAt = 60 * second ∧
      φ.clock > r'.scheduledAt - second := by
  have hrun : ((runActs .default {} aheadRun).bind fun φ => (φ.step .default (.claim 1)).map
      fun φ' => decide (∃ r' ∈ φ'.db.tables.runs, r'.status = .running ∧
        r'.scheduledAt = 60 * second ∧
        ∀ r ∈ φ.db.tables.runs, r.runId = r'.runId → r.status ≠ .running)) = some true := by
    decide +kernel
  obtain ⟨φ, hφ, hrest⟩ := Option.bind_eq_some_iff.mp hrun
  obtain ⟨φ', hφ', hstart⟩ := Option.map_eq_some_iff.mp hrest
  obtain ⟨r', hr', hs, hat, hnew⟩ := of_decide_eq_true hstart
  have hreach : Reach .default (fun _ _ => True) φ :=
    (Reach.init 0).runActs (fun _ _ _ => trivial) hφ
  exact ⟨φ, φ', hφ, hφ', r', hr', hs, hat, (no_early_start hreach hφ').1 r' hr' hs hnew⟩

end Fleet

end TaskScheduler
