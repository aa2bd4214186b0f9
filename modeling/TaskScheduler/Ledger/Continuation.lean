import TaskScheduler.Ledger.Chain

/-! The continuation is complete: every downstream of a job gets exactly one answer to the end of a
run of the job, and is still there to get it. -/

namespace TaskScheduler

open Lib

/-! ### What became of a downstream -/

/-- The runs of job `d` that the end of run `w` caused. -/
def Tables.firedRuns (t : Tables) (w d : Nat) : List JobRun :=
  t.runs.filter fun r => r.jobId == d && r.waitForRunId == some w

/-- The event says that the end of run `w` missed the trigger predicate of job `d`. -/
def RunEvent.missOf (w d : Nat) (x : RunEvent) : Bool :=
  x.runId == w && x.eventType == .chainSkippedPredicateMiss &&
    match x.eventData with
    | some (.predicateMiss d' _ _) => d' == d
    | _ => false

/-- The event says that job `d` was executing when run `w` ended. -/
def RunEvent.slowOf (w d : Nat) (x : RunEvent) : Bool :=
  x.runId == w && x.eventType == .chainSkippedSlowConsumer &&
    match x.eventData with
    | some (.slowConsumer d' _) => d' == d
    | _ => false

def Tables.Missed (t : Tables) (w d : Nat) : Prop := ∃ x ∈ t.events, x.missOf w d = true

def Tables.Slow (t : Tables) (w d : Nat) : Prop := ∃ x ∈ t.events, x.slowOf w d = true

/-- The answers that a downstream can get. -/
inductive Fate
  | fired
  | predicateMiss
  | slowConsumer
  deriving DecidableEq, Repr

/-- Job `d` has got this answer to the end of run `w`. -/
def Tables.HasFate (t : Tables) (w d : Nat) : Fate → Prop
  | .fired => (t.firedRuns w d).length = 1
  | .predicateMiss => t.Missed w d
  | .slowConsumer => t.Slow w d

/-- Nothing about the answer has changed. -/
structure SameFate (w d : Nat) (t t' : Tables) : Prop where
  fired : (t'.firedRuns w d).length = (t.firedRuns w d).length
  missed : t'.Missed w d ↔ t.Missed w d
  slow : t'.Slow w d ↔ t.Slow w d

namespace SameFate

variable {w d : Nat} {t t' t'' : Tables}

theorem refl (t : Tables) : SameFate w d t t := ⟨rfl, Iff.rfl, Iff.rfl⟩

theorem trans (h : SameFate w d t t') (h' : SameFate w d t' t'') : SameFate w d t t'' :=
  ⟨h'.fired.trans h.fired, h'.missed.trans h.missed, h'.slow.trans h.slow⟩

theorem hasFate (h : SameFate w d t t') (f : Fate) : t'.HasFate w d f ↔ t.HasFate w d f := by
  cases f with
  | fired => simp only [Tables.HasFate, h.fired]
  | predicateMiss => exact h.missed
  | slowConsumer => exact h.slow

theorem congr (hruns : t'.runs = t.runs) (hevents : t'.events = t.events) : SameFate w d t t' := by
  refine ⟨?_, ?_, ?_⟩
  · rw [Tables.firedRuns, Tables.firedRuns, hruns]
  · rw [Tables.Missed, Tables.Missed, hevents]
  · rw [Tables.Slow, Tables.Slow, hevents]

theorem addRun {row : JobRun} (h : row.jobId ≠ d ∨ row.waitForRunId ≠ some w) :
    SameFate w d t { t with runs := t.runs ++ [row] } := by
  refine ⟨?_, Iff.rfl, Iff.rfl⟩
  have : (row.jobId == d && row.waitForRunId == some w) = false := by
    rcases h with h | h <;> simp [h]
  simp [Tables.firedRuns, List.filter_append, this]

theorem addEvent {row : RunEvent} (hmiss : row.missOf w d = false) (hslow : row.slowOf w d = false) :
    SameFate w d t { t with events := t.events ++ [row] } := by
  refine ⟨rfl, ?_, ?_⟩
  · simp [Tables.Missed, hmiss]
  · simp [Tables.Slow, hslow]

theorem setRun {seq : Seq} (hk : Coherent t seq) {r : JobRun} {set : JobRun → JobRun}
    (hr : r ∈ t.runs) (hset : r.SameRun (set r)) : SameFate w d t (t.setRun r.runId set) := by
  refine ⟨?_, Iff.rfl, Iff.rfl⟩
  simp only [Tables.firedRuns, Tables.setRun, List.filter_map, List.length_map]
  refine congrArg List.length (List.filter_congr fun x hx => ?_)
  simp only [Function.comp_apply]
  split
  · next heq => rw [hk.run_eq hx hr heq, hset.jobId, hset.waitForRunId]
  · rfl

theorem setEvent {id : Nat} {set : RunEvent → RunEvent}
    (hset : ∀ e, (set e).runId = e.runId ∧ (set e).eventType = e.eventType ∧
      (set e).eventData = e.eventData) : SameFate w d t (t.setEvent id set) := by
  have hfields : ∀ e : RunEvent, (if e.eventId = id then set e else e).runId = e.runId ∧
      (if e.eventId = id then set e else e).eventType = e.eventType ∧
      (if e.eventId = id then set e else e).eventData = e.eventData := by
    intro e
    split
    · exact hset e
    · exact ⟨rfl, rfl, rfl⟩
  have hiff : ∀ p : RunEvent → Bool, (∀ e, p (if e.eventId = id then set e else e) = p e) →
      ((∃ x ∈ (t.setEvent id set).events, p x = true) ↔ ∃ x ∈ t.events, p x = true) := by
    intro p hp
    constructor
    · rintro ⟨x, hx, hpx⟩
      obtain ⟨e, he, rfl⟩ := Tables.mem_setEvent.mp hx
      exact ⟨e, he, hp e ▸ hpx⟩
    · rintro ⟨e, he, hpe⟩
      exact ⟨_, Tables.mem_setEvent.mpr ⟨e, he, rfl⟩, (hp e).trans hpe⟩
  refine ⟨rfl, hiff _ fun e => ?_, hiff _ fun e => ?_⟩
  · obtain ⟨h₁, h₂, h₃⟩ := hfields e
    simp only [RunEvent.missOf, h₁, h₂, h₃]
  · obtain ⟨h₁, h₂, h₃⟩ := hfields e
    simp only [RunEvent.slowOf, h₁, h₂, h₃]

end SameFate

/-- An event that is no skip says nothing about the answer. -/
theorem RunEvent.not_skip {x : RunEvent} (hmiss : x.eventType ≠ .chainSkippedPredicateMiss)
    (hslow : x.eventType ≠ .chainSkippedSlowConsumer) (w d : Nat) :
    x.missOf w d = false ∧ x.slowOf w d = false := by
  simp [RunEvent.missOf, RunEvent.slowOf, hmiss, hslow]

theorem Transition.not_skip {s s' : RunStatus} {type : EventType} (h : Transition s s' type) :
    type ≠ .chainSkippedPredicateMiss ∧ type ≠ .chainSkippedSlowConsumer := by
  cases h <;> simp

/-- The end of run `w` is recorded and processed. -/
def Tables.Done (t : Tables) (w : Nat) : Prop :=
  (∃ e ∈ t.events, e.eventType.terminal = true ∧ e.runId = w) ∧
    ∀ e ∈ t.events, e.eventType.terminal = true → e.runId = w → e.unprocessed = false

/-- Once the end of a run is processed, nothing changes the answers to it, if events are not
delivered again. -/
theorem Change.sameFate {m : Mode} {libs : Libs} {L L' : Ledger} (hc : Change m libs L L')
    (hk : Coherent L.tables L.seq) (hend : Ended L.tables) (hredelivers : ¬m.redelivers) {w d : Nat}
    (hdone : L.tables.Done w) : SameFate w d L.tables L'.tables ∧ L'.tables.Done w := by
  -- an event that is being processed for the first time is the end of another run
  have hother : ∀ e ∈ L.tables.events, e.eventType.terminal = true →
      (m.redelivers ∨ e.unprocessed = true) → e.runId ≠ w := by
    intro e he ht hnew heq
    have := hdone.2 e he ht heq
    rw [hnew.resolve_left hredelivers] at this
    cases this
  have hlog : ∀ row : RunEvent, (row.eventType.terminal = true → row.runId ≠ w) →
      ∀ t' : Tables, t'.events = L.tables.events ++ [row] → t'.Done w := by
    intro row hrow t' ht'
    obtain ⟨⟨e, he, hrest⟩, hall⟩ := hdone
    refine ⟨⟨e, ht' ▸ List.mem_append_left _ he, hrest⟩, fun x hx ht hxw => ?_⟩
    rw [ht'] at hx
    rcases List.mem_append.mp hx with hx | hx
    · exact hall x hx ht hxw
    · rw [List.mem_singleton.mp hx] at ht hxw
      exact absurd hxw (hrow ht)
  cases hc with
  | @spawn start runAt job entity wait hjob hsame hactive hidle hclash hcause =>
    refine ⟨?_, hlog _ (fun h => ?_) _ rfl⟩
    swap
    · cases h
    have hrow := RunEvent.not_skip (x := storedEvent (L.addRun start
      (.new entity runAt .pending wait)).seq start (.new L.seq.runs job.jobId .created none
      (some .pending) none)) (by simp [storedEvent, RunEvent.new])
      (by simp [storedEvent, RunEvent.new]) w d
    refine SameFate.trans (SameFate.addRun ?_) (SameFate.addEvent hrow.1 hrow.2)
    right
    cases hcause with
    | initial => simp [storedRun, JobRun.new]
    | successor => simp [storedRun, JobRun.new]
    | upstream he ht hnew => simpa [storedRun, JobRun.new] using hother _ he ht hnew
  | @move start r set type data hdue hr hset htrans hends =>
    have hskip := htrans.not_skip
    have hrow := RunEvent.not_skip (x := storedEvent (L.setRun r.runId set).seq start
      (.new r.runId r.jobId type (some r.status) (some (set r).status) data)) hskip.1 hskip.2 w d
    refine ⟨(SameFate.setRun hk hr hset).trans (SameFate.addEvent hrow.1 hrow.2),
      hlog _ ?_ _ rfl⟩
    -- the run that moves has no terminal event
    rintro - heq
    obtain ⟨e, he, ht, hew⟩ := hdone.1
    have hexec := htrans.executing
    have hrw : r.runId = w := heq
    rw [RunStatus.executing_eq_not_terminal, hend.ended e he ht r hr (hrw.trans hew.symm)] at hexec
    cases hexec
  | touch hr hset hstatus => exact ⟨SameFate.setRun hk hr hset, hdone⟩
  | @skip start e job type data he ht hnew hspent hjob hchild hskip =>
    have hne := hother e he ht hnew
    refine ⟨SameFate.addEvent ?_ ?_, hlog _ ?_ _ rfl⟩
    · simp [RunEvent.missOf, storedEvent, RunEvent.new, hne]
    · simp [RunEvent.slowOf, storedEvent, RunEvent.new, hne]
    · exact fun _ => hne
  | @stamp id by_ hspent hkey =>
    refine ⟨SameFate.setEvent fun e => ⟨rfl, rfl, rfl⟩, ?_, ?_⟩
    · obtain ⟨⟨e, he, ht, hew⟩, -⟩ := hdone
      refine ⟨_, Tables.mem_setEvent.mpr ⟨e, he, rfl⟩, ?_⟩
      split <;> exact ⟨ht, hew⟩
    · intro x hx ht hxw
      obtain ⟨e, he, rfl⟩ := Tables.mem_setEvent.mp hx
      split at ht
      · next heq =>
        rw [if_pos heq]
        simp [RunEvent.unprocessed, RunEvent.hasKey, hkey]
      · next hne =>
        rw [if_neg hne] at hxw ⊢
        exact hdone.2 e he ht hxw
  | _ => exact ⟨SameFate.congr rfl rfl, hdone⟩

/-! ### The invariant -/

/-- Every skip answers the end of a run that is processed, or being processed. -/
def Ledger.Noted (L : Ledger) : Prop :=
  ∀ x ∈ L.tables.events,
    x.eventType = .chainSkippedPredicateMiss ∨ x.eventType = .chainSkippedSlowConsumer →
    ∃ e ∈ L.tables.events, e.eventType.terminal = true ∧ e.runId = x.runId ∧ L.Taken e

theorem Ledger.Noted.log {L : Ledger} (h : L.Noted) {start : Int} {row : RunEvent}
    (hrow : row.eventType = .chainSkippedPredicateMiss ∨
      row.eventType = .chainSkippedSlowConsumer →
      ∃ e ∈ L.tables.events, e.eventType.terminal = true ∧ e.runId = row.runId ∧ L.Taken e) :
    (L.log start row).Noted := by
  intro x hx hskip
  have hold : ∃ e ∈ L.tables.events, e.eventType.terminal = true ∧ e.runId = x.runId ∧ L.Taken e := by
    rcases List.mem_append.mp hx with hx | hx
    · exact h x hx hskip
    · rw [List.mem_singleton.mp hx] at hskip ⊢
      exact hrow hskip
  obtain ⟨e, he, hrest⟩ := hold
  exact ⟨e, List.mem_append_left _ he, hrest⟩

theorem Ledger.Noted.change {m : Mode} {libs : Libs} {L L' : Ledger} (h : L.Noted)
    (hc : Change m libs L L') : L'.Noted := by
  cases hc with
  | spawn hjob hsame hactive hidle hclash hcause =>
    refine Ledger.Noted.log (L := L.addRun _ _) h fun hskip => ?_
    rcases hskip with hskip | hskip <;> cases hskip
  | @move start r set type data hdue hr hset htrans hends =>
    refine Ledger.Noted.log (L := L.setRun r.runId set) h fun hskip => ?_
    rcases hskip with hskip | hskip
    · exact absurd hskip htrans.not_skip.1
    · exact absurd hskip htrans.not_skip.2
  | @skip start e job type data he ht hnew hspent hjob hchild hskip =>
    exact h.log fun _ => ⟨e, he, ht, rfl, .inr hspent⟩
  | mark he ht hnew hfresh =>
    intro x hx hskip
    obtain ⟨e, he, hte, hrun, htaken⟩ := h x hx hskip
    exact ⟨e, he, hte, hrun, htaken.imp_right .inl⟩
  | @stamp id by_ hspent hkey =>
    intro x' hx' hskip
    obtain ⟨x, hx, rfl⟩ := Tables.mem_setEvent.mp hx'
    have hx₀ : (if x.eventId = id then { x with processedBy := by_ } else x).runId = x.runId ∧
        (if x.eventId = id then { x with processedBy := by_ } else x).eventType = x.eventType := by
      split <;> exact ⟨rfl, rfl⟩
    rw [hx₀.2] at hskip
    obtain ⟨e, he, ht, hrun, htaken⟩ := h x hx hskip
    refine ⟨_, Tables.mem_setEvent.mpr ⟨e, he, rfl⟩, ?_⟩
    rw [hx₀.1]
    split
    · exact ⟨ht, hrun, .inl (by simp [RunEvent.unprocessed, RunEvent.hasKey, hkey])⟩
    · next hne => exact ⟨ht, hrun, htaken.imp_right fun hs => ⟨hs, hne⟩⟩
  | _ => exact h

/-- What holds along every history without cancels and without repeated deliveries. -/
structure Ledger.Steady (L : Ledger) : Prop where
  coherent : Coherent L.tables L.seq
  resident : L.Resident
  ended : Ended L.tables
  chained : L.Chained
  noted : L.Noted

theorem Ledger.Steady.change {m : Mode} {libs : Libs} {L L' : Ledger} (h : L.Steady)
    (hcancels : ¬m.cancels) (hredelivers : ¬m.redelivers) (hc : Change m libs L L') : L'.Steady where
  coherent := hc.coherent h.coherent
  resident := h.resident.change h.coherent hc
  ended := h.ended.change h.coherent hc
  chained := h.chained.change h.coherent h.ended h.resident hcancels hredelivers hc
  noted := h.noted.change hc

theorem Ledger.Steady.changes {m : Mode} {libs : Libs} {L L' : Ledger} (h : L.Steady)
    (hcancels : ¬m.cancels) (hredelivers : ¬m.redelivers) (hc : Changes m libs L L') : L'.Steady :=
  hc.invariant (fun _ _ hI hc => hI.change hcancels hredelivers hc) h

/-- Once the end of a run is processed, the answers to it stay. -/
theorem Changes.sameFate {m : Mode} {libs : Libs} {L L' : Ledger} (hc : Changes m libs L L')
    (h : L.Steady) (hcancels : ¬m.cancels) (hredelivers : ¬m.redelivers) {w d : Nat}
    (hdone : L.tables.Done w) : SameFate w d L.tables L'.tables ∧ L'.tables.Done w := by
  have := hc.invariant (I := fun L' => L'.Steady ∧ SameFate w d L.tables L'.tables ∧
    L'.tables.Done w) (fun L₁ L₂ hI hc => by
      obtain ⟨hs, hf, hd⟩ := hI
      obtain ⟨hf', hd'⟩ := hc.sameFate hs.coherent hs.ended hredelivers (d := d) hd
      exact ⟨hs.change hcancels hredelivers hc, hf.trans hf', hd'⟩) ⟨h, .refl _, hdone⟩
  exact this.2

/-! ### The body for one event -/

/-- `f` is the one answer that job `d` has got to the end of run `w`. -/
structure Tables.Only (t : Tables) (w d : Nat) (f : Fate) : Prop where
  fired : (t.firedRuns w d).length = if f = .fired then 1 else 0
  missed : t.Missed w d ↔ f = .predicateMiss
  slow : t.Slow w d ↔ f = .slowConsumer

theorem Tables.Only.hasFate {t : Tables} {w d : Nat} {f g : Fate} (h : t.Only w d f) :
    t.HasFate w d g ↔ g = f := by
  cases g with
  | fired =>
    simp only [Tables.HasFate, h.fired]
    split <;> simp_all [eq_comm]
  | predicateMiss => exact h.missed.trans eq_comm
  | slowConsumer => exact h.slow.trans eq_comm

theorem Tables.Only.congr {t t' : Tables} {w d : Nat} {f : Fate} (h : t.Only w d f)
    (hs : SameFate w d t t') : t'.Only w d f :=
  ⟨hs.fired.trans h.fired, hs.missed.trans h.missed, hs.slow.trans h.slow⟩

/-- Job `d` has got no answer to the end of run `w`. -/
structure Tables.Unanswered (t : Tables) (w d : Nat) : Prop where
  fired : t.firedRuns w d = []
  missed : ¬t.Missed w d
  slow : ¬t.Slow w d

theorem Tables.Unanswered.congr {t t' : Tables} {w d : Nat} (h : t.Unanswered w d)
    (hs : SameFate w d t t') : t'.Unanswered w d :=
  ⟨List.eq_nil_of_length_eq_zero (by rw [hs.fired, h.fired]; rfl), mt hs.missed.mp h.missed,
    mt hs.slow.mp h.slow⟩

/-- The answer that the code gives: by the trigger predicate, and by whether the downstream is
executing. -/
def Answers (t : Tables) (e : RunEvent) (d : Job) : Fate → Prop
  | .fired => triggersOn d.triggerOnStatus e.eventType = true ∧ ¬t.Executing d.jobId
  | .predicateMiss => triggersOn d.triggerOnStatus e.eventType = false
  | .slowConsumer => triggersOn d.triggerOnStatus e.eventType = true ∧ t.Executing d.jobId

theorem Answers.congr {t t' : Tables} {e : RunEvent} {d : Job} {f : Fate} (h : Answers t e d f)
    (hx : t'.Executing d.jobId ↔ t.Executing d.jobId) : Answers t' e d f := by
  cases f with
  | fired => exact ⟨h.1, mt hx.mp h.2⟩
  | predicateMiss => exact h
  | slowConsumer => exact ⟨h.1, hx.mpr h.2⟩

theorem Answers.sameDef {t : Tables} {e : RunEvent} {d d' : Job} {f : Fate}
    (h : Answers t e d' f) (hdef : d.SameDef d') : Answers t e d f := by
  cases f with
  | fired => exact ⟨hdef.triggerOnStatus ▸ h.1, hdef.jobId ▸ h.2⟩
  | predicateMiss =>
    simp only [Answers] at h ⊢
    rwa [hdef.triggerOnStatus]
  | slowConsumer => exact ⟨hdef.triggerOnStatus ▸ h.1, hdef.jobId ▸ h.2⟩

theorem Answers.iff {t : Tables} {e : RunEvent} {d : Job} {f g : Fate} (h : Answers t e d f) :
    Answers t e d g ↔ g = f := by
  constructor
  · intro hg
    cases f <;> cases g <;> simp_all [Answers]
  · rintro rfl
    exact h

theorem executing_addRun {t : Tables} {row : JobRun} {d : Nat} (h : row.jobId ≠ d) :
    ({ t with runs := t.runs ++ [row] } : Tables).Executing d ↔ t.Executing d := by
  simp [Tables.Executing, or_and_right, exists_or, h]

section Body

variable {start : Int} {e : RunEvent} {v v' : View} {libs : Libs}

/-- A run of another job says nothing about job `d`. -/
theorem Spawned.other {row : JobRun} {res : Except SpawnError Nat} (h : Spawned start v row res v')
    {w d : Nat} (hd : row.jobId ≠ d) : SameFate w d v.tables v'.tables ∧
      (v'.tables.Executing d ↔ v.tables.Executing d) := by
  cases h with
  | busy h => exact ⟨.refl _, Iff.rfl⟩
  | clash hidle h => exact ⟨.refl _, Iff.rfl⟩
  | new hidle h =>
    refine ⟨?_, executing_addRun hd⟩
    have hrow := RunEvent.not_skip (x := storedEvent v.seq start
      (.new v.seq.runs row.jobId .created none (some row.status) none))
      (by simp [storedEvent, RunEvent.new]) (by simp [storedEvent, RunEvent.new]) w d
    have hrun : (storedRun v.seq start row).jobId ≠ d := hd
    exact (SameFate.addRun (.inl hrun)).trans (SameFate.addEvent hrow.1 hrow.2)

theorem Recurred.other {c : Job} (h : Recurred libs start e c v v') {w d : Nat} (hd : c.jobId ≠ d) :
    SameFate w d v.tables v'.tables ∧ (v'.tables.Executing d ↔ v.tables.Executing d) := by
  cases h with
  | unscheduled hcron => exact ⟨.refl _, Iff.rfl⟩
  | cancelled h => exact ⟨.refl _, Iff.rfl⟩
  | tick hcron hlive hprev hrun hjob hnext h => exact h.other hd

/-- The answer of one downstream says nothing about another. -/
theorem Handled.other {a : Job} (h : Handled start e v a v') {w d : Nat} (hd : a.jobId ≠ d) :
    SameFate w d v.tables v'.tables ∧ (v'.tables.Executing d ↔ v.tables.Executing d) := by
  cases h with
  | predicateMiss h =>
    refine ⟨SameFate.addEvent ?_ ?_, Iff.rfl⟩
    · simp [RunEvent.missOf, storedEvent, RunEvent.new, hd]
    · simp [RunEvent.slowOf, storedEvent, RunEvent.new]
  | slowConsumer h hbusy =>
    refine ⟨SameFate.addEvent ?_ ?_, Iff.rfl⟩
    · simp [RunEvent.missOf, storedEvent, RunEvent.new]
    · simp [RunEvent.slowOf, storedEvent, RunEvent.new, hd]
  | duplicate h hidle hclash => exact ⟨.refl _, Iff.rfl⟩
  | fire h hidle hclash => exact (Spawned.new hidle hclash).other hd

theorem HandledAll.other {ds : List Job} (h : HandledAll start e v ds v') {w d : Nat}
    (hd : ∀ a ∈ ds, a.jobId ≠ d) :
    SameFate w d v.tables v'.tables ∧ (v'.tables.Executing d ↔ v.tables.Executing d) := by
  induction h with
  | nil v => exact ⟨.refl _, Iff.rfl⟩
  | cons h _ ih =>
    obtain ⟨hf, hx⟩ := h.other (w := w) (hd _ List.mem_cons_self)
    obtain ⟨hf', hx'⟩ := ih fun a ha => hd a (List.mem_cons_of_mem _ ha)
    exact ⟨hf.trans hf', hx'.trans hx⟩

/-- A downstream without an answer gets the one that the code gives. -/
theorem Handled.answers {d : Job} (h : Handled start e v d v')
    (hno : v.tables.Unanswered e.runId d.jobId) :
    ∃ f, Answers v.tables e d f ∧ v'.tables.Only e.runId d.jobId f := by
  have hmiss : ∀ x ∈ v.tables.events, x.missOf e.runId d.jobId = false := by
    intro x hx
    simpa using fun h => hno.missed ⟨x, hx, h⟩
  have hslow : ∀ x ∈ v.tables.events, x.slowOf e.runId d.jobId = false := by
    intro x hx
    simpa using fun h => hno.slow ⟨x, hx, h⟩
  cases h with
  | predicateMiss h =>
    refine ⟨.predicateMiss, h, ?_, ?_, ?_⟩
    · exact congrArg List.length hno.fired
    · simp only [iff_true]
      refine ⟨_, List.mem_append_right _ (List.mem_singleton_self _), ?_⟩
      simp [RunEvent.missOf, storedEvent, RunEvent.new]
    · simp only [reduceCtorEq, iff_false]
      rintro ⟨x, hx, hxs⟩
      rcases List.mem_append.mp hx with hx | hx
      · rw [hslow x hx] at hxs
        cases hxs
      · rw [List.mem_singleton.mp hx] at hxs
        simp [RunEvent.slowOf, storedEvent, RunEvent.new] at hxs
  | slowConsumer h hbusy =>
    refine ⟨.slowConsumer, ⟨h, hbusy⟩, ?_, ?_, ?_⟩
    · exact congrArg List.length hno.fired
    · simp only [reduceCtorEq, iff_false]
      rintro ⟨x, hx, hxs⟩
      rcases List.mem_append.mp hx with hx | hx
      · rw [hmiss x hx] at hxs
        cases hxs
      · rw [List.mem_singleton.mp hx] at hxs
        simp [RunEvent.missOf, storedEvent, RunEvent.new] at hxs
    · simp only [iff_true]
      refine ⟨_, List.mem_append_right _ (List.mem_singleton_self _), ?_⟩
      simp [RunEvent.slowOf, storedEvent, RunEvent.new]
  | duplicate h hidle hclash =>
    -- neither index has the run: the job executes nothing, and the run is its first with this cause
    exfalso
    obtain ⟨x, hx, hc⟩ := List.any_eq_true.mp hclash
    have hnone := List.filter_eq_nil_iff.mp hno.fired x hx
    simp only [JobRun.clashes, storedRun, JobRun.new, Bool.and_eq_true, Bool.or_eq_true, beq_iff_eq,
      Option.isSome_some, Option.isNone_some, Bool.false_eq_true, false_and, or_false] at hc
    obtain ⟨hjob, ⟨-, hexec⟩ | ⟨-, hwait⟩⟩ := hc
    · exact hidle ⟨x, hx, hjob.symm, hexec⟩
    · simp [← hjob, ← hwait] at hnone
  | fire h hidle hclash =>
    refine ⟨.fired, ⟨h, hidle⟩, ?_, ?_, ?_⟩
    · have hfired := hno.fired
      simp only [Tables.firedRuns] at hfired ⊢
      simp [View.spawn, View.nextEvent, View.write, View.nextRun, Write.apply, List.filter_append,
        hfired, storedRun, JobRun.new]
    · simp only [reduceCtorEq, iff_false]
      rintro ⟨x, hx, hxs⟩
      rcases List.mem_append.mp hx with hx | hx
      · rw [hmiss x hx] at hxs
        cases hxs
      · rw [List.mem_singleton.mp hx] at hxs
        simp [RunEvent.missOf, storedEvent, RunEvent.new] at hxs
    · simp only [reduceCtorEq, iff_false]
      rintro ⟨x, hx, hxs⟩
      rcases List.mem_append.mp hx with hx | hx
      · rw [hslow x hx] at hxs
        cases hxs
      · rw [List.mem_singleton.mp hx] at hxs
        simp [RunEvent.slowOf, storedEvent, RunEvent.new] at hxs

/-- The loop answers each downstream once. -/
theorem HandledAll.answers {ds : List Job} (h : HandledAll start e v ds v') {d : Job} (hd : d ∈ ds)
    (hnd : (ds.map (·.jobId)).Nodup) (hno : v.tables.Unanswered e.runId d.jobId) :
    ∃ f, Answers v.tables e d f ∧ v'.tables.Only e.runId d.jobId f := by
  induction h with
  | nil v => cases hd
  | @cons v v₁ v₂ a ds h hs ih =>
    rw [List.map_cons, List.nodup_cons] at hnd
    rcases List.mem_cons.mp hd with rfl | hd
    · obtain ⟨f, hans, honly⟩ := h.answers hno
      have hother := hs.other (w := e.runId) (d := d.jobId) fun a ha heq =>
        hnd.1 (heq ▸ List.mem_map_of_mem ha)
      exact ⟨f, hans, honly.congr hother.1⟩
    · have hne : a.jobId ≠ d.jobId := fun heq => hnd.1 (heq ▸ List.mem_map_of_mem hd)
      obtain ⟨hsame, hx⟩ := h.other (w := e.runId) hne
      obtain ⟨f, hans, honly⟩ := ih hd hnd.2 (hno.congr hsame)
      exact ⟨f, hans.congr hx.symm, honly⟩

end Body

theorem Ledger.not_taken {L : Ledger} {e : RunEvent} (hnew : e.unprocessed = true)
    (hspent : ¬L.spent e.eventId) : ¬L.Taken e := by
  rintro (h | h)
  · rw [hnew] at h
    cases h
  · exact hspent h

/-- A terminal event that is not taken up is the only one of its run, so nothing answers it yet. -/
theorem Ledger.Steady.unanswered {L : Ledger} (h : L.Steady) {e : RunEvent}
    (he : e ∈ L.tables.events) (ht : e.eventType.terminal = true) (hnot : ¬L.Taken e) {d : Job}
    (hd : d ∈ L.tables.jobs) (hchild : d.triggerOnJobId = some e.jobId) :
    L.tables.Unanswered e.runId d.jobId := by
  have hsame : ∀ e' ∈ L.tables.events, e'.eventType.terminal = true → e'.runId = e.runId →
      ¬L.Taken e' := by
    intro e' he' ht' hrun
    have hid := h.ended.once e' he' e he ht' ht hrun
    rwa [h.coherent.event_eq he' he hid]
  constructor
  · refine List.filter_eq_nil_iff.mpr fun x hx hcond => ?_
    simp only [Bool.and_eq_true, beq_iff_eq] at hcond
    obtain ⟨e', he', ht', hwait, -, htaken⟩ :=
      h.chained.cause x hx d hd hcond.1.symm e.jobId hchild
    rw [hcond.2, Option.some.injEq] at hwait
    exact hsame e' he' ht' hwait.symm htaken
  · rintro ⟨x, hx, hmiss⟩
    simp only [RunEvent.missOf, Bool.and_eq_true, beq_iff_eq] at hmiss
    obtain ⟨e', he', ht', hrun, htaken⟩ := h.noted x hx (.inl hmiss.1.2)
    exact hsame e' he' ht' (hrun.trans hmiss.1.1) htaken
  · rintro ⟨x, hx, hslow⟩
    simp only [RunEvent.slowOf, Bool.and_eq_true, beq_iff_eq] at hslow
    obtain ⟨e', he', ht', hrun, htaken⟩ := h.noted x hx (.inr hslow.1.2)
    exact hsame e' he' ht' (hrun.trans hslow.1.1) htaken

theorem RunEvent.terminal_of_unprocessed {e : RunEvent} (h : e.unprocessed = true) :
    e.eventType.terminal = true := by
  simp only [RunEvent.unprocessed, Bool.and_eq_true] at h
  exact h.1

/-- The body for an event that is processed for the first time answers every downstream. -/
theorem Processed.answers {m : Mode} {libs : Libs} {L₀ : Ledger} {now start : Int} {e : RunEvent}
    {c r : Job} {ds : List Job} {v v₁ v₂ v₃ v' : View}
    (h : Processed m libs L₀ now start e c r ds v v₁ v₂ v₃ v')
    (hs : (v.ledger (fun _ => False) fun _ => False).Steady) (hend : Ended v'.tables)
    (he : e ∈ v.tables.events) (hnew : e.unprocessed = true) {d : Job} (hd : d ∈ v.tables.jobs)
    (hchild : d.triggerOnJobId = some e.jobId) :
    (∃ f, Answers v.tables e d f ∧ v'.tables.Only e.runId d.jobId f) ∧
      v'.tables.Done e.runId := by
  have ht := RunEvent.terminal_of_unprocessed hnew
  have hnot : ¬(v.ledger (fun _ => False) fun _ => False).Taken e := Ledger.not_taken hnew id
  -- the downstream has waited for this event, so it is not completed
  have hactive : d.state = .active := by
    cases hst : d.state with
    | active => rfl
    | completed => exact absurd (hs.chained.settled d hd hst e.jobId hchild e he ht rfl) hnot
    | cancelled => exact absurd hst (hs.chained.live d hd)
  have hmem : d ∈ ds := by
    rw [h.downstreams, if_neg (hs.chained.live r h.row), List.mem_filter]
    simp [hd, hchild, hactive]
  have hnd : (ds.map (·.jobId)).Nodup := by
    rw [h.downstreams, if_neg (hs.chained.live r h.row)]
    exact hs.coherent.jobs.nodup.sublist (List.filter_sublist.map _)
  have hcd : c.jobId ≠ d.jobId := by
    have hlt := (hs.coherent.trigger d hd e.jobId hchild).1
    have hcid : c.jobId = e.jobId := (settledTo_aging.jobId h.entity).trans h.row_id
    exact fun heq => by omega
  obtain ⟨hsame, hx⟩ := h.recurred.other (w := e.runId) hcd
  obtain ⟨f, hans, honly⟩ :=
    h.handled.answers hmem hnd ((hs.unanswered he ht hnot hd hchild).congr hsame)
  obtain ⟨_, _, -, hch⟩ := h.checked
  have hlast : SameFate e.runId d.jobId v₂.tables v'.tables := by
    rw [h.stamped]
    exact (SameFate.congr hch.settled.runs hch.settled.events).trans
      (SameFate.setEvent fun x => ⟨rfl, rfl, rfl⟩)
  have he' : { e with processedBy := e.stampedBy now } ∈ v'.tables.events := by
    rw [h.stamped]
    refine Tables.mem_setEvent.mpr ⟨e, ?_, if_pos rfl⟩
    rw [hch.settled.events]
    exact h.handled.events_mem (h.recurred.events_mem he)
  refine ⟨⟨f, hans.congr hx.symm, honly.congr hlast⟩, ⟨_, he', ht, rfl⟩, fun x hx ht' hrun => ?_⟩
  have hid := hend.once x hx _ he' ht' ht hrun
  rw [h.stamped] at hx
  obtain ⟨y, hy, rfl⟩ := Tables.mem_setEvent.mp hx
  split at hid
  · next heq =>
    rw [if_pos heq]
    simp [RunEvent.unprocessed, RunEvent.hasKey, stampedBy_hasKey]
  · next hne => exact absurd hid hne

/-! ### The batch of a poll -/

/-- `poll_once` is its loop over the batch. -/
theorem run_poll {cfg : Config} {pick : Nat → Bool} {others : List Session} {committed : Tables}
    {seq : Seq} {start : Int} (now : Int) (batchSize : Nat) :
    (Kind.prog cfg (.poll now batchSize)).run (Stmt.exec pick others committed) (seq, { start }) =
      (((committed.batch batchSize).forM (processEvent cfg.libs now cfg.depth)).run
        (Stmt.exec pick others committed) (seq, { start })).map
        fun a => (a.1.map fun _ => false, a.2) := by
  simp only [Kind.prog, Txn.quiet, pollOnce, Program.run_bind, Txn.selectEvents, Program.run,
    Stmt.exec, Option.bind_some]
  change Option.bind (Option.bind (((committed.batch batchSize).forM
    (processEvent cfg.libs now cfg.depth)).run _ _) _) _ = _
  cases ((committed.batch batchSize).forM (processEvent cfg.libs now cfg.depth)).run
    (Stmt.exec pick others committed) (seq, { start }) with
  | none => rfl
  | some a =>
    obtain ⟨res, d⟩ := a
    cases res <;> rfl

theorem Processed.settled {m : Mode} {libs : Libs} {L₀ : Ledger} {now start : Int} {e : RunEvent}
    {c r : Job} {ds : List Job} {v v₁ v₂ v₃ v' : View}
    (h : Processed m libs L₀ now start e c r ds v v₁ v₂ v₃ v') {d : Job} (hd : d ∈ v.tables.jobs) :
    ∃ d' ∈ v'.tables.jobs, d.SettledTo d' := by
  obtain ⟨_, _, -, hch⟩ := h.checked
  rw [h.stamped]
  refine hch.settled.mem_of_mem ?_
  rwa [h.handled.jobs, h.recurred.jobs]

theorem Polled.settled {m : Mode} {libs : Libs} {L₀ : Ledger} {now start : Int} {v v' : View}
    {es : List RunEvent} (h : Polled m libs L₀ now start v es v') {d : Job}
    (hd : d ∈ v.tables.jobs) : ∃ d' ∈ v'.tables.jobs, d.SettledTo d' := by
  induction h generalizing d with
  | nil path => exact ⟨d, hd, .inl rfl⟩
  | cons path he hnew h hs ih =>
    obtain ⟨d₁, hd₁, hsame⟩ := h.settled hd
    obtain ⟨d₂, hd₂, hsame'⟩ := ih hd₁
    exact ⟨d₂, hd₂, hsame.trans hsame'⟩

/-- The events outside the batch stay as they are. -/
theorem Polled.events_mem {m : Mode} {libs : Libs} {L₀ : Ledger} {now start : Int} {v v' : View}
    {es : List RunEvent} (h : Polled m libs L₀ now start v es v') {x : RunEvent}
    (hx : x ∈ v.tables.events) (hne : ∀ e ∈ es, x.eventId ≠ e.eventId) : x ∈ v'.tables.events := by
  induction h with
  | nil path => exact hx
  | cons path he hnew h hs ih =>
    exact ih (h.events_mem hx (hne _ List.mem_cons_self))
      fun e he => hne e (List.mem_cons_of_mem _ he)

namespace Sys

/-- A step of a history without cancels, in which only `poll_once` processes events. -/
def SteadyOk (σ : Sys) : Act → Prop
  | .atomic (.cancel _ _ _) _ _ | .atomic (.deliver _ _) _ _ => False
  | a => σ.AtomicOk a

theorem SteadyOk.atomicOk {σ : Sys} {a : Act} (h : σ.SteadyOk a) : σ.AtomicOk a := by
  unfold SteadyOk at h
  split at h
  · exact h.elim
  · exact h.elim
  · exact h

theorem SteadyOk.mode {σ : Sys} {k : Kind} {start : Int} {pick : Nat → Bool}
    (h : σ.SteadyOk (.atomic k start pick)) : ¬(k.mode σ).cancels ∧ ¬(k.mode σ).redelivers := by
  cases k with
  | cancel now userId jobId => exact h.elim
  | deliver now event => exact h.elim
  | _ => exact ⟨id, id⟩

theorem Reach.steady {cfg : Config} {σ : Sys} (h : Reach cfg SteadyOk σ) :
    σ.Base ∧ σ.ledger.Steady := by
  refine h.changes (fun _ _ h => h.atomicOk) (fun m => ¬m.cancels ∧ ¬m.redelivers)
    (fun _ _ _ _ h => h.mode) Ledger.Steady ?_ fun _ L L' hm _ hI hc => hI.change hm.1 hm.2 hc
  refine ⟨Base.init.coherent, ?_, ?_, ?_, ?_⟩
  · constructor <;> simp [Sys.ledger]
  · constructor <;> simp [Sys.ledger]
  · constructor <;> simp [Sys.ledger]
  · simp [Ledger.Noted, Sys.ledger]

/-- In the rest of a history, the answers to a processed event stay. -/
theorem Steps.sameFate {cfg : Config} {σ σ' : Sys} (h : Steps cfg SteadyOk σ σ')
    (hreach : Reach cfg SteadyOk σ) {w d : Nat} (hdone : σ.tables.Done w) :
    Reach cfg SteadyOk σ' ∧ SameFate w d σ.tables σ'.tables ∧ σ'.tables.Done w := by
  induction h with
  | refl => exact ⟨hreach, .refl _, hdone⟩
  | @step σ₁ σ₂ a _ ha hstep ih =>
    obtain ⟨hreach₁, hsame, hdone₁⟩ := ih
    have hreach₂ := hreach₁.step ha hstep
    obtain ⟨hbase, hst⟩ := hreach₁.steady
    cases a with
    | atomic k start pick =>
      have hpath := (atomic_changes hstep hbase.coherent hbase.live ha.atomicOk).1
      obtain ⟨hsame', hdone₂⟩ := hpath.sameFate hst ha.mode.1 ha.mode.2 (d := d) hdone₁
      exact ⟨hreach₂, hsame.trans hsame', hdone₂⟩
    | crash runId jobId =>
      cases hstep
      exact ⟨hreach₂, hsame, hdone₁⟩
    | start k at_ | statement i pick | commit i | abort i => exact ha.elim

/-- A poll that commits, cut at one of its events: the state that a poll of the events before it
leaves, and the body for the event in that state. -/
theorem poll_answers {cfg : Config} {σ₀ : Sys} (hreach : Reach cfg SteadyOk σ₀) {now start : Int}
    {batchSize k : Nat} {pick : Nat → Bool} {seq : Seq} {ses : Session}
    (hrun : ((σ₀.tables.batch batchSize).forM (processEvent cfg.libs now cfg.depth)).run
      (Stmt.exec pick σ₀.open_ σ₀.tables) (σ₀.seq, { start }) = some (.ok ⟨⟩, seq, ses))
    {e : RunEvent} (hk : (σ₀.tables.batch batchSize)[k]? = some e) {d : Job}
    (hd : d ∈ σ₀.tables.jobs) (hchild : d.triggerOnJobId = some e.jobId) :
    ∃ σₑ, σ₀.step cfg (.atomic (.poll now k) start pick) = some σₑ ∧
      (∃ f, Answers σₑ.tables e d f ∧ (ses.view σ₀.tables).Only e.runId d.jobId f) ∧
      (ses.view σ₀.tables).Done e.runId := by
  obtain ⟨hbase, hst⟩ := hreach.steady
  obtain ⟨hlt, hget⟩ := List.getElem?_eq_some_iff.mp hk
  have hall : ∀ x ∈ σ₀.tables.batch batchSize, x ∈ σ₀.tables.events ∧ x.unprocessed = true :=
    fun _ => Tables.mem_batch
  have hnd := hbase.coherent.batch_nodup batchSize
  have hpre : (σ₀.tables.batch batchSize).take k = σ₀.tables.batch k := by
    have : k ≤ batchSize := by
      have := List.length_take_le batchSize ((σ₀.tables.events.filter
        RunEvent.unprocessed).insertionSort fun a b => a.eventId ≤ b.eventId)
      simp only [Tables.batch] at hlt
      omega
    rw [Tables.batch, List.take_take, Nat.min_eq_left this, Tables.batch]
  -- the batch is the events before `e`, `e`, and the events after it
  have hsplit : σ₀.tables.batch batchSize =
      σ₀.tables.batch k ++ e :: (σ₀.tables.batch batchSize).drop (k + 1) := by
    rw [← hpre, ← hget, ← List.drop_eq_getElem_cons, List.take_append_drop]
  generalize (σ₀.tables.batch batchSize).drop (k + 1) = post at hsplit
  rw [hsplit] at hrun hall hnd
  rw [List.map_append, List.map_cons, List.nodup_append] at hnd
  obtain ⟨hndpre, hndrest, hdisj⟩ := hnd
  rw [List.nodup_cons] at hndrest
  rw [Program.forM_append] at hrun
  obtain ⟨⟨⟩, d₁, hrun₁, hrun⟩ := Program.run_bind_ok hrun
  rw [Program.forM_cons] at hrun
  obtain ⟨⟨⟩, d₂, hrun₂, hrun₃⟩ := Program.run_bind_ok hrun
  -- the events before
  have hwp := @forM_processEvent_polled ⟨False, False, fun _ => False⟩ cfg.libs σ₀.ledger start
    ⟨σ₀.tables, σ₀.seq, none⟩ pick now cfg.depth hst.coherent (σ₀.tables.batch k) .refl
    (fun x hx => hall x (List.mem_append_left _ hx)) hndpre
  obtain ⟨v, hb, hpolled⟩ := run_part settledTo_aging (.start_view hbase.coherent.jobs) hwp hrun₁
  have hstv : (v.ledger (fun _ => False) fun _ => False).Steady := hst.changes id id hpolled.path
  have hmem : ∀ x ∈ e :: post, x ∈ v.tables.events ∧ x.unprocessed = true := by
    intro x hx
    obtain ⟨hx₀, hnew⟩ := hall x (List.mem_append_right _ hx)
    refine ⟨hpolled.events_mem hx₀ fun y hy heq => ?_, hnew⟩
    refine hdisj _ (List.mem_map_of_mem hy) _ ?_ heq.symm
    rw [← List.map_cons]
    exact List.mem_map_of_mem hx
  obtain ⟨d', hd', hsame⟩ := hpolled.settled hd
  have hdef := settledTo_aging.sameDef hsame
  -- the event itself
  obtain ⟨he, hnew⟩ := hmem e List.mem_cons_self
  obtain ⟨v', hb', c, r, ds, v₁, v₂, v₃, hp⟩ := run_part settledTo_aging hb
    (@processEvent_processed ⟨False, False, fun _ => False⟩ cfg.libs σ₀.ledger start e v pick now
      cfg.depth hpolled.path hst.coherent e e.processedBy rfl he
      (RunEvent.terminal_of_unprocessed hnew) (.inr hnew)) hrun₂
  have hstv' : (v'.ledger (fun _ => False) fun _ => False).Steady := hst.changes id id hp.path
  obtain ⟨⟨f, hans, honly⟩, hdone⟩ := hp.answers hstv hstv'.ended he hnew hd'
    ((settledTo_aging.triggerOnJobId hsame).symm.trans hchild)
  -- the events after
  obtain ⟨v'', hb'', hpolled'⟩ := run_part settledTo_aging hb'
    (@forM_processEvent_polled ⟨False, False, fun _ => False⟩ cfg.libs
      (v'.ledger (fun _ => False) fun _ => False) start v' pick now cfg.depth hstv'.coherent post
      .refl (fun x hx => by
        obtain ⟨hx₀, hxnew⟩ := hmem x (List.mem_cons_of_mem _ hx)
        refine ⟨hp.events_mem hx₀ fun heq => hndrest.1 ?_, hxnew⟩
        rw [← heq]
        exact List.mem_map_of_mem hx) hndrest.2) hrun₃
  obtain ⟨hfate, hdone'⟩ := hpolled'.path.sameFate hstv' id id (d := d.jobId) hdone
  have hid : d'.jobId = d.jobId := hdef.jobId.symm
  have hview : v''.tables = ses.view σ₀.tables := hb''.tables
  have hstep : σ₀.step cfg (.atomic (.poll now k) start pick) =
      some { σ₀ with tables := d₁.2.view σ₀.tables, seq := d₁.1 } := by
    simp only [Sys.step, Kind.enabled, if_true, run_poll, hrun₁, Option.map_some]
    rfl
  refine ⟨_, hstep, ⟨f, ?_, ?_⟩, hview ▸ hdone'⟩
  · rw [← hb.tables]
    exact hans.sameDef hdef
  · rw [hid] at honly
    exact hview ▸ honly.congr hfate

/-- In a history without cancels whose events only `poll_once` processes: a completed downstream has
no unprocessed terminal event of its trigger, and once a poll has processed the event `e`, every
downstream that was there before it has exactly one answer to it for good.  The answer is a miss
exactly if the trigger predicate does not match, and a skip exactly if it does and the downstream was
executing when the poll, done with the events before `e`, came to it. -/
theorem continuation_complete {cfg : Config} :
    (∀ σ, Reach cfg SteadyOk σ → ∀ d ∈ σ.tables.jobs, d.state = .completed →
      ∀ p, d.triggerOnJobId = some p → ¬σ.tables.Unprocessed p) ∧
    ∀ (σ₀ σ₁ σ₂ : Sys) (now start : Int) (batchSize k : Nat) (pick : Nat → Bool) (e : RunEvent),
      Reach cfg SteadyOk σ₀ → (σ₀.tables.batch batchSize)[k]? = some e →
      σ₀.step cfg (.atomic (.poll now batchSize) start pick) = some σ₁ →
      (∀ x ∈ σ₁.tables.events, x.eventId = e.eventId → x.unprocessed = false) →
      Steps cfg SteadyOk σ₁ σ₂ →
      ∀ d ∈ σ₀.tables.jobs, d.triggerOnJobId = some e.jobId →
        ∃ σₑ, σ₀.step cfg (.atomic (.poll now k) start pick) = some σₑ ∧
          (∃! f, σ₂.tables.HasFate e.runId d.jobId f) ∧
          (σ₂.tables.HasFate e.runId d.jobId .predicateMiss ↔
            triggersOn d.triggerOnStatus e.eventType = false) ∧
          (σ₂.tables.HasFate e.runId d.jobId .slowConsumer ↔
            triggersOn d.triggerOnStatus e.eventType = true ∧ σₑ.tables.Executing d.jobId) := by
  constructor
  · rintro σ hreach d hd hst p hp ⟨e, he, rfl, hnew⟩
    have hs := hreach.steady.2
    exact Ledger.not_taken hnew id (hs.chained.settled d hd hst e.jobId hp e he
      (RunEvent.terminal_of_unprocessed hnew) rfl)
  · intro σ₀ σ₁ σ₂ now start batchSize k pick e hreach hk hstep hdone hsteps d hd hchild
    have hreach₁ : Reach cfg SteadyOk σ₁ :=
      hreach.step (a := .atomic (.poll now batchSize) start pick) trivial hstep
    obtain ⟨he, hnew⟩ := Tables.mem_batch (List.mem_of_getElem? hk)
    obtain ⟨-, ⟨seq, -, rfl⟩ | ⟨won, seq, ses, hrun, rfl⟩⟩ := Sys.step_atomic hstep
    · -- a poll that raises processes nothing
      rw [hdone e he rfl] at hnew
      cases hnew
    · rw [run_poll, Option.map_eq_some_iff] at hrun
      obtain ⟨⟨res, d₁⟩, hrun, heq⟩ := hrun
      cases res with
      | error err => cases heq
      | ok u =>
        cases heq
        obtain ⟨σₑ, hmoment, ⟨f, hans, honly⟩, hproc⟩ := poll_answers hreach hrun hk hd hchild
        obtain ⟨-, hsame, -⟩ := hsteps.sameFate hreach₁ (d := d.jobId) hproc
        have hfate : ∀ g, σ₂.tables.HasFate e.runId d.jobId g ↔ g = f :=
          fun g => (honly.congr hsame).hasFate
        refine ⟨σₑ, hmoment, ⟨f, (hfate f).mpr rfl, fun g hg => (hfate g).mp hg⟩, ?_, ?_⟩
        · rw [hfate]
          exact hans.iff.symm
        · rw [hfate]
          exact hans.iff.symm

/-- A one-shot job with two downstreams, of which the second waits for a failure, up to the end of
its run. -/
def forkRun : List Act :=
  [.at 0 (.create 0 (.echo none none none)),
    .at 1 (.create 1 (.echo none (some 1) none)),
    .at 2 (.create 2 (.echo none (some 1) (some "FAILED"))),
    .at 3 (.publish 3 10),
    .at 4 (.claim 4 1 1),
    .at 5 (.finish 5 1 1 .success)]

theorem forkRun_answered : ∃ σ₀ σ₁ e d, runActs .minutely {} forkRun = some σ₀ ∧
    (σ₀.tables.batch 10)[0]? = some e ∧ σ₀.step .minutely (.at 6 (.poll 6 10)) = some σ₁ ∧
    σ₀.tables.jobs[2]? = some d ∧ σ₁.tables.HasFate e.runId d.jobId .predicateMiss := by
  have hsome : ((runActs .minutely {} forkRun).bind fun σ =>
      σ.step .minutely (.at 6 (.poll 6 10))).isSome = true := by decide +kernel
  obtain ⟨σ₁, hσ₁⟩ := Option.isSome_iff_exists.mp hsome
  obtain ⟨σ₀, hσ₀, hstep⟩ := Option.bind_eq_some_iff.mp hσ₁
  have hfirst : ((runActs .minutely {} forkRun).bind fun σ => (σ.tables.batch 10)[0]?.bind fun e =>
      σ.tables.jobs[2]?.map fun d => (d.triggerOnJobId, d.triggerOnStatus, e.jobId, e.eventType)) =
      some (some 1, some .failed, 1, .succeeded) := by decide +kernel
  have hlast : ((runActs .minutely {} forkRun).bind fun σ =>
      σ.step .minutely (.at 6 (.poll 6 10))).map (fun σ => σ.tables.events.all fun x =>
        !x.unprocessed) = some true := by decide +kernel
  rw [hσ₁, Option.map_some, Option.some.injEq, List.all_eq_true] at hlast
  rw [hσ₀, Option.bind_some] at hfirst
  obtain ⟨e, he, hd⟩ := Option.bind_eq_some_iff.mp hfirst
  obtain ⟨d, hd, hcols⟩ := Option.map_eq_some_iff.mp hd
  simp only [Prod.mk.injEq] at hcols
  obtain ⟨htrigger, hstatus, hjob, htype⟩ := hcols
  have hreach : Reach .minutely SteadyOk σ₀ := by
    refine Reach.init.runActs (fun τ a ha => ?_) hσ₀
    simp only [forkRun, List.mem_cons, List.not_mem_nil, or_false] at ha
    rcases ha with rfl | rfl | rfl | rfl | rfl | rfl <;> trivial
  obtain ⟨-, -, -, hmiss, -⟩ := continuation_complete.2 σ₀ σ₁ σ₁ 6 6 10 0 (fun _ => true) e hreach he
    hstep (fun x hx _ => by simpa using hlast x hx) .refl d (List.mem_of_getElem? hd)
    (by rw [htrigger, hjob])
  refine ⟨σ₀, σ₁, e, d, hσ₀, he, hstep, hd, hmiss.mpr ?_⟩
  rw [hstatus, htype]
  rfl

end Sys

end TaskScheduler
