import Mathlib.Data.List.Chain
import TaskScheduler.Fleet.Retry

/-! How often an action is executed.  A worker executes the run that it has claimed, and a claim
records STARTED; Sweep C gives the run of a crashed worker back to the workers only if its action is
idempotent.  So the run of another action starts again only after a worker has asked for a retry,
whatever the queue delivers twice and whichever lease the sweep takes to be stale. -/

namespace TaskScheduler

open Lib

/-- The events that the attempts at a run are counted by. -/
def EventType.attempt : EventType → Bool
  | .started | .retry => true
  | _ => false

/-- The starts of a run and the retries that were asked for, among these events. -/
def attemptsIn (events : List RunEvent) (runId : Nat) : List EventType :=
  ((events.filter fun e => e.runId == runId).map (·.eventType)).filter EventType.attempt

theorem attemptsIn_append (xs ys : List RunEvent) (runId : Nat) :
    attemptsIn (xs ++ ys) runId = attemptsIn xs runId ++ attemptsIn ys runId := by
  simp [attemptsIn]

theorem attemptsIn_start {e : RunEvent} {runId : Nat}
    (he : e.runId = runId ∧ e.eventType = .started) (es : List RunEvent) :
    attemptsIn (e :: es) runId = .started :: attemptsIn es runId := by
  have hrow : (e :: es).filter (fun e => e.runId == runId) =
      e :: es.filter fun e => e.runId == runId := List.filter_cons_of_pos (beq_iff_eq.mpr he.1)
  rw [attemptsIn, hrow, List.map_cons, he.2]
  exact List.filter_cons_of_pos rfl

theorem mem_attemptsIn {events : List RunEvent} {runId : Nat} {type : EventType}
    (h : type ∈ attemptsIn events runId) :
    type.attempt = true ∧ ∃ x ∈ events, x.runId = runId ∧ x.eventType = type := by
  obtain ⟨hin, hatt⟩ := List.mem_filter.mp h
  obtain ⟨x, hx, rfl⟩ := List.mem_map.mp hin
  obtain ⟨hx, hid⟩ := List.mem_filter.mp hx
  exact ⟨hatt, x, hx, beq_iff_eq.mp hid, rfl⟩

/-- The attempts at a run, in the order of the outbox. -/
def Tables.attempts (t : Tables) (runId : Nat) : List EventType := attemptsIn t.events runId

/-- The action is known, and idempotent. -/
def Idempotent (registry : String → Option ActionHandler) (action : String) : Prop :=
  (registry action).any (·.idempotent) = true

/-- No start follows a start, and a run that can be claimed has not just started. -/
structure Attempted (log : List EventType) (s : RunStatus) : Prop where
  apart : log.IsChain fun a b => a = .started → b ≠ .started
  idle : s.cancellable = true → .started ∉ log.getLast?

/-- The event that is recorded as a run goes from one status to another: a start is a claim, and
only a retry makes a run claimable that was not. -/
structure Recorded (type : EventType) (s s' : RunStatus) : Prop where
  started : type = .started → s.cancellable = true ∧ s'.cancellable = false
  back : s'.cancellable = true → s.cancellable = true ∨ type = .retry

theorem Transition.recorded {s s' : RunStatus} {type : EventType} (h : Transition s s' type)
    (hs' : s = .running → s' ≠ .queued) : Recorded type s s' := by
  cases h with
  | recover => exact absurd rfl (hs' rfl)
  | claim h => exact ⟨fun _ => ⟨h, rfl⟩, fun h' => (by cases h')⟩
  | retry => exact ⟨fun h' => (by cases h'), fun _ => .inr rfl⟩
  | publish | requeue => exact ⟨fun h' => (by cases h'), fun _ => .inl rfl⟩
  | succeed | fail | deadLetter | cancel =>
    exact ⟨fun h' => (by cases h'), fun h' => (by cases h')⟩

namespace Attempted

variable {log : List EventType} {s s' : RunStatus} {type : EventType}

/-- A run that is new. -/
theorem new : Attempted [] s := ⟨List.isChain_nil, fun _ h => by cases h⟩

/-- A status that nothing is counted for. -/
theorem quiet (h : Attempted log s) (hback : s'.cancellable = true → s.cancellable = true) :
    Attempted log s' :=
  ⟨h.apart, fun hs => h.idle (hback hs)⟩

theorem append (h : Attempted log s) (hrec : Recorded type s s') :
    Attempted (log ++ [type].filter EventType.attempt) s' := by
  have hsplit : type = .started ∨ type = .retry ∨ type.attempt = false := by
    cases type <;> simp [EventType.attempt]
  rcases hsplit with rfl | rfl | htype
  · -- a claim: what was counted last is no start
    obtain ⟨hs, hs'⟩ := hrec.started rfl
    refine ⟨h.apart.append (List.isChain_singleton _) fun a ha b _ hstart => ?_, fun hc => ?_⟩
    · exact absurd (hstart ▸ ha) (h.idle hs)
    · rw [hs'] at hc
      cases hc
  · refine ⟨h.apart.append (List.isChain_singleton _) fun a _ b hb _ => ?_, fun _ hin => ?_⟩
    · simp only [List.filter, EventType.attempt, List.head?_cons, Option.mem_some_iff] at hb
      simp [← hb]
    · simp [EventType.attempt] at hin
  · have hnil : [type].filter EventType.attempt = [] := by simp [htype]
    rw [hnil, List.append_nil]
    refine h.quiet fun hs' => (hrec.back hs').resolve_right ?_
    rintro rfl
    cases htype

end Attempted

/-- Every job is still there, with its action. -/
def Tables.KeepsActions (t t' : Tables) : Prop :=
  ∀ j ∈ t.jobs, ∃ j' ∈ t'.jobs, j'.jobId = j.jobId ∧ j'.action = j.action

theorem Tables.KeepsActions.refl (t : Tables) : t.KeepsActions t := fun j hj => ⟨j, hj, rfl, rfl⟩

/-- The attempts at the runs of actions that are not idempotent. -/
def Tables.Restrained (registry : String → Option ActionHandler) (t : Tables) : Prop :=
  ∀ r ∈ t.runs, (∀ j ∈ t.jobs, j.jobId = r.jobId → ¬Idempotent registry j.action) →
    Attempted (t.attempts r.runId) r.status

namespace Tables

variable {registry : String → Option ActionHandler} {t t' : Tables}

theorem attempts_append {e : RunEvent} {runId : Nat} (hevents : t'.events = t.events ++ [e]) :
    t'.attempts runId = if e.runId = runId then
      t.attempts runId ++ [e.eventType].filter EventType.attempt else t.attempts runId := by
  unfold attempts
  rw [hevents, attemptsIn_append]
  split
  · next hid => simp [attemptsIn, hid]
  · next hid => simp [attemptsIn, hid]

/-- Events that only their cursors tell apart count for the same. -/
theorem attempts_map {f : RunEvent → RunEvent} {runId : Nat} (hevents : t'.events = t.events.map f)
    (hf : ∀ e, (f e).runId = e.runId ∧ (f e).eventType = e.eventType) :
    t'.attempts runId = t.attempts runId := by
  unfold attempts attemptsIn
  have hid : (fun e : RunEvent => e.runId == runId) ∘ f = fun e => e.runId == runId := by
    funext e
    simp [(hf e).1]
  have htype : (fun e : RunEvent => e.eventType) ∘ f = fun e => e.eventType := by
    funext e
    simp [(hf e).2]
  have hrows : (t.events.map f).filter (fun e => e.runId == runId) =
      (t.events.filter fun e => e.runId == runId).map f := by rw [List.filter_map, hid]
  rw [hevents, hrows, List.map_map, htype]

namespace Restrained

/-- Jobs that keep their actions, and events that count for nothing. -/
theorem of_jobs (h : t.Restrained registry) (hruns : t'.runs = t.runs)
    (hattempts : ∀ id, t'.attempts id = t.attempts id) (hjobs : t.KeepsActions t') :
    t'.Restrained registry := by
  intro r hr hnot
  rw [hruns] at hr
  rw [hattempts]
  refine h r hr fun j hj hid => ?_
  obtain ⟨j', hj', hid', haction⟩ := hjobs j hj
  exact haction ▸ hnot j' hj' (hid'.trans hid)

/-- A run changes its status, and the event that records it is written. -/
theorem write (h : t.Restrained registry) (hnd : (t.runs.map (·.runId)).Nodup) {r : JobRun}
    (hr : r ∈ t.runs) {set : JobRun → JobRun} (hset : r.SameRun (set r)) {e : RunEvent}
    (hid : e.runId = r.runId) (hruns : t'.runs = (t.setRun r.runId set).runs)
    (hevents : t'.events = t.events ++ [e]) (hjobs : t'.jobs = t.jobs)
    (hok : Recorded e.eventType r.status (set r).status ∨
      ∃ j ∈ t.jobs, j.jobId = r.jobId ∧ Idempotent registry j.action) :
    t'.Restrained registry := by
  intro x' hx' hnot
  rw [hruns] at hx'
  rw [hjobs] at hnot
  obtain ⟨x, hx, rfl⟩ := mem_setRun.mp hx'
  rw [attempts_append hevents, hid]
  split
  · next heq =>
    rw [List.inj_on_of_nodup_map hnd hx hr heq, hset.runId, if_pos rfl]
    rw [if_pos heq, List.inj_on_of_nodup_map hnd hx hr heq, hset.jobId] at hnot
    rcases hok with hrec | ⟨j, hj, hjid, hidem⟩
    · exact (h r hr hnot).append hrec
    · exact absurd hidem (hnot j hj hjid)
  · next hne =>
    rw [if_neg (Ne.symm hne)]
    rw [if_neg hne] at hnot
    exact h x hx hnot

/-- The new status of a run counts for nothing, and no event is written. -/
theorem touch (h : t.Restrained registry) (hnd : (t.runs.map (·.runId)).Nodup) {r : JobRun}
    (hr : r ∈ t.runs) {set : JobRun → JobRun} (hset : r.SameRun (set r))
    (hstatus : (set r).status = r.status) : (t.setRun r.runId set).Restrained registry := by
  intro x' hx' hnot
  obtain ⟨x, hx, rfl⟩ := mem_setRun.mp hx'
  split
  · next heq =>
    rw [if_pos heq, List.inj_on_of_nodup_map hnd hx hr heq, hset.jobId] at hnot
    rw [List.inj_on_of_nodup_map hnd hx hr heq, hset.runId, hstatus]
    exact h r hr hnot
  · next hne =>
    rw [if_neg hne] at hnot
    exact h x hx hnot

/-- A new run has no attempts, and no event is about it yet. -/
theorem spawn (h : t.Restrained registry) {seq : Seq} (hk : Coherent t seq) {row : JobRun}
    {e : RunEvent} (hid : row.runId = seq.runs) (heid : e.runId = row.runId)
    (htype : e.eventType.attempt = false) (hruns : t'.runs = t.runs ++ [row])
    (hevents : t'.events = t.events ++ [e]) (hjobs : t'.jobs = t.jobs) :
    t'.Restrained registry := by
  intro r hr hnot
  rw [hruns] at hr
  rw [hjobs] at hnot
  rw [attempts_append hevents, heid, hid]
  rcases List.mem_append.mp hr with hr | hr
  · rw [if_neg (hk.runs_below r hr).ne']
    exact h r hr hnot
  · rw [List.mem_singleton.mp hr, hid, if_pos rfl]
    have hnone : t.attempts seq.runs = [] := by
      have hrows : t.events.filter (fun e => e.runId == seq.runs) = [] := by
        rw [List.filter_eq_nil_iff]
        intro x hx hxid
        obtain ⟨r₀, hr₀, hrun, -⟩ := hk.event_run x hx
        exact (hk.runs_below r₀ hr₀).ne (hrun.trans (beq_iff_eq.mp hxid))
      unfold attempts attemptsIn
      rw [hrows]
      rfl
    have hempty : [e.eventType].filter EventType.attempt = [] := by simp [htype]
    rw [hnone, hempty]
    exact .new

end Restrained

end Tables

/-- Every change but the reset of a run keeps the attempts restrained. -/
theorem Change.restrained {registry : String → Option ActionHandler} {m : Mode} {libs : Libs}
    {L L' : Ledger} (hc : Change m libs L L') (hends : ∀ id, ¬m.ends id)
    (hk : Coherent L.tables L.seq) (h : L.tables.Restrained registry) :
    L'.tables.Restrained registry := by
  have hset : ∀ (id : Nat) (set : Job → Job), (∀ j, (set j).jobId = j.jobId ∧
      (set j).action = j.action) → (L.tables.setJob id set).Restrained registry := by
    intro id set hkeep
    refine h.of_jobs rfl (fun _ => rfl) fun j hj => ⟨_, Tables.mem_setJob.mpr ⟨j, hj, rfl⟩, ?_⟩
    split
    · exact hkeep j
    · exact ⟨rfl, rfl⟩
  cases hc with
  | burn | mark | clear => exact h
  | addJob hstate hlife hparent =>
    exact h.of_jobs rfl (fun _ => rfl) fun j hj => ⟨j, List.mem_append_left _ hj, rfl, rfl⟩
  | spawn hjob hsame hactive hidle hclash hcause =>
    exact h.spawn hk rfl rfl rfl rfl rfl rfl
  | move hdue hr hset htrans hends' =>
    exact h.write hk.runs hr hset rfl rfl rfl rfl
      (.inl (htrans.recorded fun hs => absurd (hends' hs) (hends _)))
  | touch hr hset hstatus => exact h.touch hk.runs hr hset hstatus
  | skip he hterminal hnew hspent hjob hchild hskip =>
    refine h.of_jobs rfl (fun id => ?_) (.refl L.tables)
    rw [Tables.attempts_append rfl]
    split
    · cases hskip <;> exact List.append_nil _
    · rfl
  | stamp hspent hkey =>
    refine h.of_jobs rfl (fun id => Tables.attempts_map rfl fun e => ?_) (.refl L.tables)
    split <;> exact ⟨rfl, rfl⟩
  | settle hdue hex => exact hset _ _ fun j => ⟨rfl, rfl⟩
  | retire hdue hj hactive htype hfree hrun hevent => exact hset _ _ fun j => ⟨rfl, rfl⟩
  | cancel hmode hj hactive => exact hset _ _ fun j => ⟨rfl, rfl⟩

/-! ### The transactions -/

section Transactions

variable {registry : String → Option ActionHandler} {older : Job → Job → Prop} {pick : Nat → Bool}
  {start now now' grace : Int} {E : Err → View → Prop} {v : View}

/-- A settle keeps the runs, the attempts, and the actions of the jobs. -/
theorem settleJob_restrained {jobId : Nat} (h : v.tables.Restrained registry) :
    (settleJob now jobId).wp (rowAccount Job.SettledTo pick start) E
      (fun _ v' => v'.tables.Restrained registry ∧ v'.tables.runs = v.tables.runs ∧
        v.tables.KeepsActions v'.tables) v := by
  unfold settleJob
  simp only [Program.wp_bind, wp_updateJobs, Program.pure_eq, Program.wp_ret]
  have hkeeps : v.tables.KeepsActions (Write.apply (.updateJobs (v.jobIds fun j => j.jobId == jobId &&
      j.state == .active && j.jobType != .recurring && j.triggerOnJobId.isNone) (Job.settle now))
      v.tables) := by
    intro j hj
    refine ⟨_, List.mem_map.mpr ⟨j, hj, rfl⟩, ?_⟩
    split <;> exact ⟨rfl, rfl⟩
  exact ⟨fun j hj => settledTo_settle now j (by simp at hj; exact hj.1.1.2),
    h.of_jobs rfl (fun _ => rfl) hkeeps, rfl, hkeeps⟩

/-- The write after an action, whatever has become of the run meanwhile. -/
theorem finishTxn_restrained (h : v.tables.Restrained registry)
    (hnd : (v.tables.runs.map (·.runId)).Nodup) {runId jobId : Nat}
    (hrun : ∃ r ∈ v.tables.runs, r.runId = runId ∧ r.jobId = jobId) (outcome : Outcome) :
    (finishTxn now runId jobId outcome).wp (rowAccount Job.SettledTo pick start) E
      (fun _ v' => v'.tables.Restrained registry) v := by
  obtain ⟨r, hr, rfl, rfl⟩ := hrun
  have hend : ∀ (set : JobRun → JobRun) (type : EventType) (status : RunStatus)
      (data : Option EventData), r.SameRun (set r) → (set r).status = status →
      status.terminal = true → type ≠ .started →
      ((v.setRun r.runId set).log start
        (.new r.runId r.jobId type (some .running) (some status) data)).tables.Restrained registry := by
    intro set type status data hset hs hterm htype
    refine h.write hnd hr hset rfl rfl rfl rfl (.inl ⟨fun h' => absurd h' htype, fun hc => ?_⟩)
    have hex := RunStatus.executing_of_cancellable hc
    rw [RunStatus.executing_eq_not_terminal, hs, hterm] at hex
    cases hex
  have hterminal : ∀ (status : RunStatus) (res : ActionResult), status.terminal = true →
      (writeTerminal now r.runId r.jobId status res).wp (rowAccount Job.SettledTo pick start) E
        (fun _ v' => v'.tables.Restrained registry) v := by
    intro status res hterm
    unfold writeTerminal
    rw [Program.wp_bind]
    refine wp_updateRun fun _ => ?_
    simp only [Program.wp_bind, wp_insertEvent, Program.pure_eq]
    refine Program.wp_mono (settleJob_restrained
      (hend (JobRun.finish now status res) status.event status _ ⟨rfl, rfl, rfl, rfl, rfl⟩ rfl hterm
        ?_)) fun _ _ h' => h'.1
    cases status <;> simp [RunStatus.event]
  have hretry : ∀ message, (writeRetrying now r.runId r.jobId message).wp
      (rowAccount Job.SettledTo pick start) E (fun _ v' => v'.tables.Restrained registry) v := by
    intro message
    unfold writeRetrying
    rw [Program.wp_bind]
    refine wp_updateRun fun _ => ?_
    rw [wp_insertEvent]
    exact h.write hnd hr ⟨rfl, rfl, rfl, rfl, rfl⟩ rfl rfl rfl rfl
      (.inl ⟨fun h' => (by cases h'), fun _ => .inr rfl⟩)
  cases outcome with
  | returned res =>
    simp only [finishTxn]
    split
    · exact hterminal .succeeded res rfl
    · split
      · exact hterminal .failed res rfl
      · exact hretry _
  | raised message => exact hretry message
  | invalid message eventData =>
    unfold finishTxn writePermanentFailure
    rw [Program.wp_bind]
    refine wp_updateRun fun _ => ?_
    simp only [Program.wp_bind, wp_insertEvent, Program.pure_eq]
    exact Program.wp_mono (settleJob_restrained
      (hend (JobRun.fail now message) .failed .failed _ ⟨rfl, rfl, rfl, rfl, rfl⟩ rfl rfl
        (by simp))) fun _ _ h' => h'.1

/-- Sweep C resets the runs of idempotent actions only. -/
theorem sweepRunningOrphan_restrained {batchSize : Nat} (h : v.tables.Restrained registry)
    (hk : Coherent v.tables v.seq) :
    (sweepRunningOrphan registry now now' grace batchSize).wp (rowAccount Job.SettledTo pick start) E
      (fun _ v' => v'.tables.Restrained registry) v := by
  unfold sweepRunningOrphan
  simp only [Program.wp_bind, wp_lockRuns]
  intro rs hsub
  obtain ⟨hnd, hrs⟩ := locked_rows hk hsub
  split
  · exact h
  · simp only [Program.wp_bind, wp_selectJobs]
    -- the jobs keep their actions
    refine Program.wp_mono (wp_forM_runs (fun w => w.tables.Restrained registry ∧
      (w.tables.runs.map (·.runId)).Nodup ∧
      v.tables.KeepsActions w.tables)
      (fun _ => True) (fun r w hI hr _ => ?_) rs
      ⟨h, hk.runs, .refl v.tables⟩ hnd fun r hr => ⟨(hrs r hr).1, trivial⟩)
      fun _ _ h' => h'.1
    obtain ⟨hres, hkeys, hjobs⟩ := hI
    unfold recoverRun
    split
    · next hidem =>
      simp only [isIdempotent, Option.any_eq_true, Option.bind_eq_some_iff] at hidem
      obtain ⟨handler, ⟨j, hfind, hhandler⟩, hidem⟩ := hidem
      have hj := (List.mem_filter.mp (List.mem_of_find?_eq_some hfind)).1
      have hid := List.find?_some hfind
      obtain ⟨j', hj', hid', haction⟩ := hjobs j hj
      rw [Program.wp_bind]
      refine wp_updateRun fun _ => ?_
      rw [wp_insertEvent]
      refine ⟨⟨hres.write hkeys hr ⟨rfl, rfl, rfl, rfl, rfl⟩ rfl rfl rfl rfl (.inr ⟨j', hj', ?_, ?_⟩),
        ?_, hjobs⟩, fun x hx hne => mem_setRun_of_ne hx hne⟩
      · exact hid'.trans (beq_iff_eq.mp hid)
      · rw [Idempotent, haction, hhandler]
        exact hidem
      · exact Tables.nodup_setRun hkeys r.runId (JobRun.queue now') fun _ => rfl
    · rw [Program.wp_bind]
      refine wp_updateRun fun _ => ?_
      simp only [Program.wp_bind, wp_insertEvent, Program.pure_eq]
      have hsame : r.SameRun (JobRun.fail now' runningOrphanMessage r) := ⟨rfl, rfl, rfl, rfl, rfl⟩
      refine Program.wp_mono (settleJob_restrained (hres.write hkeys hr hsame rfl rfl rfl rfl
        (.inl ⟨fun h' => (by cases h'), fun h' => (by cases h')⟩))) fun _ w' hw' => ?_
      obtain ⟨hres', hruns, hkeeps⟩ := hw'
      refine ⟨⟨hres', ?_, fun j hj => ?_⟩, fun x hx hne => ?_⟩
      · rw [hruns]
        exact Tables.nodup_setRun hkeys r.runId (JobRun.fail now' runningOrphanMessage) fun _ => rfl
      · obtain ⟨j₁, hj₁, hid₁, haction₁⟩ := hjobs j hj
        obtain ⟨j₂, hj₂, hid₂, haction₂⟩ := hkeeps j₁ hj₁
        exact ⟨j₂, hj₂, hid₂.trans hid₁, haction₂.trans haction₁⟩
      · rw [hruns]
        exact mem_setRun_of_ne hx hne

end Transactions

/-- A transaction that is alone keeps what it ends with and what it began with. -/
theorem alone_keeps {older : Job → Job → Prop} (aging : Aging older) {α : Type} {t : Txn α}
    {P : Tables → Prop} {start : Int} {pick : Nat → Bool} {x y : Db} {res : Except Err α}
    (keys : JobKeys x.tables.jobs x.seq.jobs) (hP : P x.tables)
    (hwp : t.wp (rowAccount older pick start) (fun _ _ => True) (fun _ v => P v.tables)
      ⟨x.tables, x.seq, none⟩) (h : x.alone start pick t = some (res, y)) : P y.tables := by
  obtain ⟨res', y', h', hend⟩ := Db.alone_cases aging (Q := fun _ t => P t) keys hwp
  rw [h, Option.some.injEq, Prod.mk.injEq] at h'
  obtain ⟨-, rfl⟩ := h'
  rcases hend with ⟨_, -, hy⟩ | ⟨_, _, -, -, heq⟩
  · exact hy
  · exact heq ▸ hP

/-- A transaction of a process that is alone keeps the attempts restrained. -/
theorem Kind.restrained {cfg : Config} {k : Kind} {start : Int} {pick : Nat → Bool} {x y : Db}
    {res : Except Err Bool} (hk : Coherent x.tables x.seq) (hready : k.Ready x.tables)
    (hfresh : ∀ now e, k ≠ .deliver now e) (h : x.tables.Restrained cfg.registry)
    (hres : x.alone start pick (k.prog cfg) = some (res, y)) : y.tables.Restrained cfg.registry := by
  -- a transaction that is a path of changes, and resets no run
  let L : Ledger := ⟨x.tables, x.seq, fun _ => False, fun _ => False⟩
  have hchanges : ∀ {α : Type} {older : Job → Job → Prop} {t : Txn α} (c : Prop), Aging older →
      t.wp (rowAccount older pick start) (fun _ _ => True) (fun _ v' =>
        Changes ⟨c, False, fun _ => False⟩ cfg.libs L (v'.ledger (fun _ => False) fun _ => False))
        ⟨x.tables, x.seq, none⟩ →
      t.wp (rowAccount older pick start) (fun _ _ => True)
        (fun _ v' => v'.tables.Restrained cfg.registry) ⟨x.tables, x.seq, none⟩ := by
    intro α older t c aging hwp
    refine Program.wp_mono hwp fun _ v' hpath => ?_
    exact (hpath.invariant (I := fun L => Coherent L.tables L.seq ∧ L.tables.Restrained cfg.registry)
      (fun _ _ hI hc => ⟨hc.coherent hI.1, hc.restrained (fun _ => id) hI.1 hI.2⟩) ⟨hk, h⟩).2
  have hquiet : ∀ {α : Type} {older : Job → Job → Prop} {t : Txn α}, Aging older →
      t.wp (rowAccount older pick start) (fun _ _ => True)
        (fun _ v' => v'.tables.Restrained cfg.registry) ⟨x.tables, x.seq, none⟩ →
      x.alone start pick t.quiet = some (res, y) → y.tables.Restrained cfg.registry :=
    fun aging hwp => alone_keeps (P := Tables.Restrained cfg.registry) aging hk.jobs h (wp_quiet hwp)
  cases k with
  | create now args =>
    exact hquiet eq_aging (hchanges False eq_aging (createJob_changes hk args .refl)) hres
  | publish now batchSize =>
    exact hquiet eq_aging (hchanges False eq_aging (claimAndPublish_changes hk batchSize .refl)) hres
  | claim now runId jobId =>
    refine alone_keeps (P := Tables.Restrained cfg.registry) eq_aging hk.jobs h
      (hchanges False eq_aging (Program.wp_mono (claim_changes hk .refl hready) fun _ _ h' => h'.1))
      hres
  | finish now runId jobId outcome =>
    obtain ⟨r, hr, hid, hjob⟩ := hready
    exact hquiet settledTo_aging (finishTxn_restrained h hk.runs ⟨r, hr, hid, hjob⟩ outcome) hres
  | heartbeat now runId =>
    exact hquiet eq_aging (hchanges False eq_aging (bumpHeartbeatAt_changes runId .refl)) hres
  | sweepA now grace batchSize =>
    exact hquiet eq_aging (hchanges False eq_aging (sweepDlqRetrying_changes hk grace batchSize .refl))
      hres
  | sweepB now now' grace batchSize sent =>
    exact hquiet eq_aging
      (hchanges False eq_aging (sweepQueuedStuck_changes hk now' grace batchSize sent .refl)) hres
  | sweepC now now' grace batchSize =>
    exact hquiet settledTo_aging (sweepRunningOrphan_restrained h hk) hres
  | poll now batchSize =>
    exact hquiet settledTo_aging (hchanges False settledTo_aging (Program.wp_mono
      (pollOnce_polled hk .refl) fun _ _ h' => h'.path)) hres
  | deliver now event => exact absurd rfl (hfresh now event)
  | cancel now userId jobId =>
    exact hquiet since_aging (hchanges True since_aging (cancelJob_changes hk trivial userId .refl))
      hres

namespace Fleet

variable {set : Settings} {φ φ' : Fleet}

/-- The database after a transaction of a process. -/
theorem transact_db {α : Type} {i : Nat} {pick : Nat → Bool} {t : Txn α} {next : α → Option Proc}
    (h : φ.transact i pick t next = some φ') : ∃ res, φ.alone pick t = some (res, φ'.db) := by
  obtain ⟨res, db, hres, ⟨_, -, rfl⟩ | ⟨_, -, rfl⟩⟩ := transact_cases h <;> exact ⟨res, hres⟩

/-- A step runs one transaction at most, and no redelivery of an event. -/
theorem step_db (h : φ.Sound) {a : FleetAct} (hstep : φ.step set a = some φ') :
    φ'.db = φ.db ∨ ∃ (k : Kind) (pick : Nat → Bool) (res : Except Err Bool),
      (∀ now e, k ≠ .deliver now e) ∧ k.Ready φ.db.tables ∧
        φ.alone pick (k.prog set.cfg) = some (res, φ'.db) := by
  cases a with
  | tick d | begin_ role | crash i | lose k | bury k =>
    cases hstep
    exact .inl rfl
  | other k pick =>
    simp only [step] at hstep
    split at hstep
    · next hout =>
      obtain ⟨⟨res, db⟩, hres, rfl⟩ := Option.map_eq_some_iff.mp hstep
      refine .inr ⟨k, pick, res, fun now e heq => ?_, Kind.outside_ready hout _, hres⟩
      subst heq
      cases hout
    · cases hstep
  | publish i batchSize pick =>
    simp only [step] at hstep
    split at hstep
    · next now hi =>
      obtain ⟨_, hres⟩ := transact_db hstep
      obtain ⟨res, hk⟩ := alone_quiet hres
      exact .inr ⟨.publish now batchSize, pick, res, by simp, trivial, hk⟩
    · cases hstep
  | sweepA i batchSize pick =>
    simp only [step] at hstep
    split at hstep
    · next now hi =>
      obtain ⟨_, hres⟩ := transact_db hstep
      obtain ⟨res, hk⟩ := alone_quiet hres
      exact .inr ⟨.sweepA now set.dlqGrace batchSize, pick, res, by simp, trivial, hk⟩
    · cases hstep
  | sweepB i batchSize pick sent arrives commits =>
    simp only [step] at hstep
    split at hstep
    · next now hi =>
      split at hstep
      · next runs db hres =>
        cases hstep
        dsimp only
        split
        · obtain ⟨res, hk⟩ := alone_quiet hres
          exact .inr ⟨.sweepB now φ.clock set.queuedGrace batchSize sent, pick, res, by simp, trivial,
            hk⟩
        · exact .inl rfl
      · next e db hres =>
        cases hstep
        obtain ⟨res, hk⟩ := alone_quiet hres
        exact .inr ⟨.sweepB now φ.clock set.queuedGrace batchSize sent, pick, res, by simp, trivial,
          hk⟩
      · cases hstep
    · cases hstep
  | sweepC i batchSize pick =>
    simp only [step] at hstep
    split at hstep
    · next now hi =>
      obtain ⟨_, hres⟩ := transact_db hstep
      obtain ⟨res, hk⟩ := alone_quiet hres
      exact .inr ⟨.sweepC now φ.clock set.runningGrace batchSize, pick, res, by simp, trivial, hk⟩
    · cases hstep
  | send i arrives =>
    simp only [step] at hstep
    split at hstep
    · cases hstep
      split <;> exact .inl rfl
    · cases hstep
  | receive k =>
    simp only [step] at hstep
    split at hstep
    · split at hstep
      · cases hstep
        exact .inl rfl
      · cases hstep
    · cases hstep
  | claim i =>
    simp only [step] at hstep
    split at hstep
    · next m hi =>
      obtain ⟨r, hr, hid, hjob, -⟩ : φ.db.tables.Due m.runId m.jobId φ.clock := h.procs i _ hi
      obtain ⟨res, hres⟩ := transact_db hstep
      exact .inr ⟨.claim φ.clock m.runId m.jobId, _, res, by simp, ⟨r, hr, hid, hjob⟩, hres⟩
    · cases hstep
  | heartbeat i =>
    simp only [step] at hstep
    split at hstep
    · next m hi =>
      obtain ⟨_, hres⟩ := transact_db hstep
      obtain ⟨res, hk⟩ := alone_quiet hres
      exact .inr ⟨.heartbeat φ.clock m.runId, _, res, by simp, trivial, hk⟩
    · cases hstep
  | finish i outcome =>
    simp only [step] at hstep
    split at hstep
    · next m hi =>
      obtain ⟨r, hr, hid, hjob, -⟩ : φ.db.tables.Due m.runId m.jobId φ.clock := h.procs i _ hi
      obtain ⟨_, hres⟩ := transact_db hstep
      obtain ⟨res, hk⟩ := alone_quiet hres
      exact .inr ⟨.finish φ.clock m.runId m.jobId outcome, _, res, by simp, ⟨r, hr, hid, hjob⟩, hk⟩
    · cases hstep
  | delete i =>
    simp only [step] at hstep
    split at hstep
    · cases hstep
      exact .inl rfl
    · cases hstep
  | duplicate k =>
    simp only [step] at hstep
    split at hstep
    · cases hstep
      exact .inl rfl
    · cases hstep

theorem Reach.restrained {ok : Fleet → FleetAct → Prop} (h : Reach set ok φ) :
    φ.db.tables.Restrained set.cfg.registry := by
  induction h with
  | init clock => exact fun r hr => by cases hr
  | step hreach _ hstep ih =>
    rcases step_db hreach.sound hstep with heq | ⟨k, pick, res, hfresh, hready, hres⟩
    · exact heq ▸ ih
    · exact Kind.restrained hreach.sound.coherent hready hfresh ih hres

/-- Whatever the queue delivers twice and whichever lease a sweep takes to be stale: between two
starts of a run whose action is not idempotent, a worker has asked for a retry of it. -/
theorem restarted_for_retry {ok : Fleet → FleetAct → Prop} (hreach : Reach set ok φ) {r : JobRun}
    (hr : r ∈ φ.db.tables.runs) {j : Job} (hj : j ∈ φ.db.tables.jobs) (hid : j.jobId = r.jobId)
    (haction : ¬Idempotent set.cfg.registry j.action) {before between after : List RunEvent}
    {e e' : RunEvent} (hevents : φ.db.tables.events = before ++ e :: between ++ e' :: after)
    (he : e.runId = r.runId ∧ e.eventType = .started)
    (he' : e'.runId = r.runId ∧ e'.eventType = .started) :
    ∃ x ∈ between, x.runId = r.runId ∧ x.eventType = .retry := by
  have hatt := hreach.restrained r hr fun i hi hii => by
    rw [hreach.sound.coherent.job_eq hi hj (hii.trans hid.symm)]
    exact haction
  have hchain := hatt.apart
  rw [Tables.attempts, hevents, attemptsIn_append, attemptsIn_append, attemptsIn_start he,
    attemptsIn_start he', List.append_assoc] at hchain
  cases hmid : attemptsIn between r.runId with
  | nil =>
    rw [hmid] at hchain
    exact absurd rfl ((List.isChain_append_cons_cons.mp hchain).2.1 rfl)
  | cons type rest =>
    rw [hmid] at hchain
    have hne : type ≠ .started := (List.isChain_append_cons_cons.mp hchain).2.1 rfl
    obtain ⟨hcount, x, hx, hxid, rfl⟩ := mem_attemptsIn (hmid ▸ List.mem_cons_self : type ∈ _)
    refine ⟨x, hx, hxid, ?_⟩
    cases htype : x.eventType with
    | retry => rfl
    | started => exact absurd htype hne
    | _ =>
      rw [htype] at hcount
      cases hcount

/-- A message to Slack times out, its second worker crashes, and Sweep C takes the run before the
message is delivered a third time. -/
def restartRun : List FleetAct :=
  [.other (.create 0 { CreateArgs.echo none none none with action := "slack_post" }) fun _ => true,
    .begin_ .watcher, .publish 0 10 fun _ => true, .send 0 true, .receive 0, .claim 1,
    .finish 1 (.raised "TimeoutError"), .receive 0, .claim 2, .crash 2, .tick 200000000,
    .begin_ .sweepC, .sweepC 3 100 fun _ => true, .receive 0, .claim 4]

theorem restartRun_retried : ∃ φ, runActs .default {} restartRun = some φ ∧
    φ.db.tables.events.map (fun e => (e.runId, e.eventType)) = [(1, .created), (1, .queued),
      (1, .started), (1, .retry), (1, .started), (1, .failed)] ∧
    ∃ before e x e' after, φ.db.tables.events = before ++ e :: [x] ++ e' :: after ∧
      e.eventType = .started ∧ x.eventType = .retry ∧ e'.eventType = .started := by
  have hrun : (runActs .default {} restartRun).map (fun φ => decide
      (φ.db.tables.events.map (fun e => (e.runId, e.eventType)) = [(1, .created), (1, .queued),
        (1, .started), (1, .retry), (1, .started), (1, .failed)] ∧
      ∃ r ∈ φ.db.tables.runs, r.runId = 1 ∧ ∃ j ∈ φ.db.tables.jobs, j.jobId = r.jobId ∧
        ((actionRegistry j.action).any (·.idempotent)) = false)) = some true := by decide +kernel
  obtain ⟨φ, hφ, hend⟩ := Option.map_eq_some_iff.mp hrun
  obtain ⟨hevents, r, hr, hrid, j, hj, hid, haction⟩ := of_decide_eq_true hend
  have hreach : Reach .default (fun _ _ => True) φ :=
    (Reach.init 0).runActs (fun _ _ _ => trivial) hφ
  obtain ⟨a, _, h₀, -, h⟩ := List.map_eq_cons_iff.mp hevents
  obtain ⟨b, _, rfl, -, h⟩ := List.map_eq_cons_iff.mp h
  obtain ⟨e, _, rfl, he, h⟩ := List.map_eq_cons_iff.mp h
  obtain ⟨x, _, rfl, -, h⟩ := List.map_eq_cons_iff.mp h
  obtain ⟨e', after, rfl, he', -⟩ := List.map_eq_cons_iff.mp h
  have hsplit : φ.db.tables.events = [a, b] ++ e :: [x] ++ e' :: after := h₀
  rw [Prod.mk.injEq, ← hrid] at he he'
  refine ⟨φ, hφ, hevents, [a, b], e, x, e', after, hsplit, ?_⟩
  obtain ⟨y, hy, hyid, hretry⟩ := restarted_for_retry hreach hr hj hid
    (fun h => by rw [Idempotent] at h; exact absurd (h.symm.trans haction) (by simp)) hsplit he he'
  rw [List.mem_singleton.mp hy] at hyid hretry
  exact ⟨he.2, hretry, he'.2⟩

end Fleet

end TaskScheduler
