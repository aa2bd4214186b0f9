import Mathlib.Data.List.Chain
import TaskScheduler.Ledger.Atomic

/-! The outbox is the log of the run state machine: the events of a run that carry a status are a
path of transitions that ends in the status of the run. -/

namespace TaskScheduler

/-- The event is about run `runId` and records a status. -/
def RunEvent.records (runId : Nat) (e : RunEvent) : Bool := e.runId == runId && e.statusTo.isSome

/-- The events of a run that record a status, in `event_id` order. -/
def Tables.runLog (t : Tables) (runId : Nat) : List RunEvent :=
  (t.events.filter (RunEvent.records runId)).insertionSort fun a b => a.eventId ≤ b.eventId

/-- The status that a log leaves a run in. -/
def replay (log : List RunEvent) : Option RunStatus := log.getLast?.bind (·.statusTo)

/-- The events are a path of transitions, from the creation of a run to `s`. -/
inductive LogChain : List RunEvent → RunStatus → Prop
  | created {e : RunEvent} (htype : e.eventType = .created) (hfrom : e.statusFrom = none)
      (hto : e.statusTo = some .pending) : LogChain [e] .pending
  | step {es : List RunEvent} {e : RunEvent} {s s' : RunStatus} (hs : LogChain es s)
      (hfrom : e.statusFrom = some s) (hto : e.statusTo = some s')
      (htrans : Transition s s' e.eventType) : LogChain (es ++ [e]) s'

/-- One event follows another in a log. -/
def Follows (a b : RunEvent) : Prop :=
  b.statusFrom = a.statusTo ∧
    ∃ s s', a.statusTo = some s ∧ b.statusTo = some s' ∧ Transition s s' b.eventType

namespace LogChain

variable {es : List RunEvent} {s : RunStatus}

theorem replay_eq (h : LogChain es s) : replay es = some s := by
  cases h with
  | created htype hfrom hto => simp [replay, hto]
  | step hs hfrom hto htrans => simp [replay, hto]

/-- The path does not depend on which consumers have stamped its events. -/
theorem map (h : LogChain es s) {f : RunEvent → RunEvent}
    (hf : ∀ e, (f e).eventType = e.eventType ∧ (f e).statusFrom = e.statusFrom ∧
      (f e).statusTo = e.statusTo) : LogChain (es.map f) s := by
  induction h with
  | @created e htype hfrom hto =>
    exact .created ((hf e).1.trans htype) ((hf e).2.1.trans hfrom) ((hf e).2.2.trans hto)
  | @step es e s s' hs hfrom hto htrans ih =>
    rw [List.map_append]
    exact .step ih ((hf e).2.1.trans hfrom) ((hf e).2.2.trans hto) ((hf e).1 ▸ htrans)

theorem head (h : LogChain es s) : ∃ e rest, es = e :: rest ∧ e.eventType = .created ∧
    e.statusFrom = none ∧ e.statusTo = some .pending := by
  induction h with
  | @created e htype hfrom hto => exact ⟨e, [], rfl, htype, hfrom, hto⟩
  | @step _ e _ _ _ _ _ _ ih =>
    obtain ⟨e₀, rest, rfl, hrest⟩ := ih
    exact ⟨e₀, rest ++ [e], rfl, hrest⟩

theorem isChain (h : LogChain es s) : es.IsChain Follows := by
  induction h with
  | created htype hfrom hto => exact List.isChain_singleton _
  | @step es e s s' hs hfrom hto htrans ih =>
    refine ih.append (List.isChain_singleton e) ?_
    intro a ha b hb
    simp only [List.head?_cons, Option.mem_def, Option.some.injEq] at hb
    subst hb
    have hlast := hs.replay_eq
    simp only [replay, Option.mem_def.mp ha, Option.bind_some] at hlast
    exact ⟨hfrom.trans hlast.symm, s, s', hlast, hto, htrans⟩

end LogChain

/-- Nothing follows a terminal event. -/
theorem not_follows_of_terminal {a b : RunEvent} {s : RunStatus} (ha : a.statusTo = some s)
    (hs : s.terminal = true) : ¬Follows a b := by
  rintro ⟨-, s₁, s', hs₁, -, htrans⟩
  rw [ha, Option.some.injEq] at hs₁
  subst hs₁
  have := htrans.executing
  rw [RunStatus.executing_eq_not_terminal, hs] at this
  cases this

/-- The invariant of the outbox. -/
structure Ledger.Logged (L : Ledger) : Prop where
  sorted : L.tables.events.Pairwise fun a b => a.eventId < b.eventId
  chain : ∀ r ∈ L.tables.runs, LogChain (L.tables.events.filter (RunEvent.records r.runId)) r.status

namespace Ledger.Logged

variable {m : Mode} {libs : Libs} {L L' : Ledger}

theorem sorted_log (h : L.Logged) (hk : Coherent L.tables L.seq) (start : Int) (row : RunEvent) :
    (L.log start row).tables.events.Pairwise fun a b => a.eventId < b.eventId := by
  refine List.pairwise_append.mpr ⟨h.sorted, List.pairwise_singleton _ _, fun a ha b hb => ?_⟩
  rw [List.mem_singleton.mp hb]
  exact hk.events_below a ha

/-- The log of a run after an event about another run, or one that records no status. -/
theorem filter_log {L : Ledger} {start : Int} {row : RunEvent} {runId : Nat}
    (h : row.runId ≠ runId ∨ row.statusTo = none) :
    (L.log start row).tables.events.filter (RunEvent.records runId) =
      L.tables.events.filter (RunEvent.records runId) := by
  have : (storedEvent L.seq start row).records runId = false := by
    rcases h with h | h <;> simp [RunEvent.records, storedEvent, h]
  simp only [Ledger.log, List.filter_append, List.filter_cons, this, Bool.false_eq_true, if_false,
    List.filter_nil, List.append_nil]

/-- The log of a run after an event of its own. -/
theorem filter_log_self {L : Ledger} {start : Int} {row : RunEvent} {runId : Nat}
    (hid : row.runId = runId) (hto : row.statusTo.isSome = true) :
    (L.log start row).tables.events.filter (RunEvent.records runId) =
      L.tables.events.filter (RunEvent.records runId) ++ [storedEvent L.seq start row] := by
  have : (storedEvent L.seq start row).records runId = true := by
    simp [RunEvent.records, storedEvent, hid, hto]
  simp only [Ledger.log, List.filter_append, List.filter_cons, this, if_true, List.filter_nil]

theorem spawn (h : L.Logged) (hk : Coherent L.tables L.seq) {start runAt : Int} {entity : Job}
    {wait : Option Nat} (jobId : Nat) :
    ((L.addRun start (.new entity runAt .pending wait)).log start
      (.new L.seq.runs jobId .created none (some .pending) none)).Logged := by
  refine ⟨h.sorted_log hk start _, fun r hr => ?_⟩
  rcases List.mem_append.mp hr with hr | hr
  · rw [filter_log (.inl (hk.runs_below r hr).ne')]
    exact h.chain r hr
  · -- no event is about a run that is not there yet
    rw [List.mem_singleton.mp hr]
    have hnone : L.tables.events.filter (RunEvent.records L.seq.runs) = [] := by
      rw [List.filter_eq_nil_iff]
      intro e he hrec
      obtain ⟨x, hx, hxe, -⟩ := hk.event_run e he
      simp only [RunEvent.records, Bool.and_eq_true, beq_iff_eq] at hrec
      exact (hk.runs_below x hx).ne (hxe.trans hrec.1)
    change LogChain (List.filter (RunEvent.records L.seq.runs) _) .pending
    rw [filter_log_self (by rfl) (by rfl)]
    change LogChain (List.filter (RunEvent.records L.seq.runs) L.tables.events ++ _) .pending
    rw [hnone]
    exact .created rfl rfl rfl

theorem move (h : L.Logged) (hk : Coherent L.tables L.seq) {start : Int} {r : JobRun}
    {set : JobRun → JobRun} {type : EventType} {data : Option EventData} (hr : r ∈ L.tables.runs)
    (hset : r.SameRun (set r)) (htrans : Transition r.status (set r).status type) :
    ((L.setRun r.runId set).log start
      (.new r.runId r.jobId type (some r.status) (some (set r).status) data)).Logged := by
  refine ⟨h.sorted_log hk start _, fun x' hx' => ?_⟩
  obtain ⟨x, hx, rfl⟩ := Tables.mem_setRun.mp hx'
  split
  · next heq =>
    rw [hk.run_eq hx hr heq, hset.runId]
    rw [filter_log_self (by rfl) (by rfl)]
    exact .step (h.chain r hr) rfl rfl htrans
  · next hne =>
    rw [filter_log (.inl (Ne.symm hne))]
    exact h.chain x hx

theorem touch (h : L.Logged) (hk : Coherent L.tables L.seq) {r : JobRun} {set : JobRun → JobRun}
    (hr : r ∈ L.tables.runs) (hset : r.SameRun (set r)) (hstatus : (set r).status = r.status) :
    (L.setRun r.runId set).Logged := by
  refine ⟨h.sorted, fun x' hx' => ?_⟩
  obtain ⟨x, hx, rfl⟩ := Tables.mem_setRun.mp hx'
  split
  · next heq =>
    rw [hk.run_eq hx hr heq, hset.runId, hstatus]
    exact h.chain r hr
  · exact h.chain x hx

theorem stamp (h : L.Logged) {id : Nat} {by_ : List (String × Int)} :
    (L.stamp id by_).Logged := by
  set f : RunEvent → RunEvent := fun e =>
    if e.eventId = id then { e with processedBy := by_ } else e with hf
  have hfields : ∀ e, (f e).eventId = e.eventId ∧ (f e).runId = e.runId ∧
      (f e).eventType = e.eventType ∧ (f e).statusFrom = e.statusFrom ∧
      (f e).statusTo = e.statusTo := by
    intro e
    simp only [hf]
    split <;> exact ⟨rfl, rfl, rfl, rfl, rfl⟩
  refine ⟨?_, fun r hr => ?_⟩
  · refine List.pairwise_map.mpr (h.sorted.imp fun {a b} hab => ?_)
    rw [(hfields a).1, (hfields b).1]
    exact hab
  · have hrec : RunEvent.records r.runId ∘ f = RunEvent.records r.runId := by
      funext e
      simp only [Function.comp_apply, RunEvent.records, (hfields e).2.1, (hfields e).2.2.2.2]
    have hfilter : (L.stamp id by_).tables.events.filter (RunEvent.records r.runId) =
        (L.tables.events.filter (RunEvent.records r.runId)).map f := by
      rw [← hrec, ← List.filter_map]
      rw [hrec]
      rfl
    rw [hfilter]
    exact (h.chain r hr).map fun e => (hfields e).2.2

/-- Every change keeps the outbox a log of the runs. -/
theorem change (h : L.Logged) (hk : Coherent L.tables L.seq) (hc : Change m libs L L') :
    L'.Logged := by
  cases hc with
  | spawn hjob hsame hactive hidle hclash hcause => exact h.spawn hk _
  | move hdue hr hset htrans hends => exact h.move hk hr hset htrans
  | touch hr hset hstatus => exact h.touch hk hr hset hstatus
  | skip he hterminal hnew hspent hjob hchild hskip =>
    refine ⟨h.sorted_log hk _ _, fun r hr => ?_⟩
    rw [filter_log (.inr (by rfl))]
    exact h.chain r hr
  | stamp hspent hkey => exact h.stamp
  | _ => exact ⟨h.sorted, h.chain⟩

end Ledger.Logged

namespace Sys

/-- In every reachable state, with transactions at once and Sweep C on crashed workers' runs only,
and for every run: its log begins with its creation as PENDING, each later event leaves the status
that the one before it reached, by a transition of the run state machine, nothing follows a terminal
event, and the last event has the status of the run, which the log alone determines. -/
theorem outbox_is_log {cfg : Config} {σ : Sys} (hreach : Reach cfg AtomicOk σ) :
    ∀ r ∈ σ.tables.runs,
      (∃ e rest, σ.tables.runLog r.runId = e :: rest ∧ e.eventType = .created ∧
        e.statusFrom = none ∧ e.statusTo = some .pending) ∧
      (σ.tables.runLog r.runId).IsChain Follows ∧
      (∀ before e after s, σ.tables.runLog r.runId = before ++ e :: after →
        e.statusTo = some s → s.terminal = true → after = []) ∧
      replay (σ.tables.runLog r.runId) = some r.status := by
  obtain ⟨-, hlog⟩ := hreach.changes (fun _ _ h => h) (fun _ => True) (fun _ _ _ _ _ => trivial)
    Ledger.Logged (by constructor <;> simp [Sys.ledger])
    (fun _ L L' _ hk hI hc => hI.change hk hc)
  intro r hr
  have hsort : σ.tables.runLog r.runId =
      σ.tables.events.filter (RunEvent.records r.runId) :=
    List.Pairwise.insertionSort_eq ((hlog.sorted.imp fun h => h.le).filter _)
  have hchain : LogChain (σ.tables.events.filter (RunEvent.records r.runId)) r.status :=
    hlog.chain r hr
  rw [hsort]
  refine ⟨hchain.head, hchain.isChain, fun before e after s heq hto hs => ?_, hchain.replay_eq⟩
  cases after with
  | nil => rfl
  | cons b after =>
    have h := hchain.isChain
    rw [heq] at h
    exact absurd (List.isChain_append_cons_cons.mp h).2.1 (not_follows_of_terminal hto hs)

/-- A run that is retried once and fails for good. -/
def retryRun : List Act :=
  [.at 0 (.create 0 (.echo none none none)),
    .at 1 (.publish 1 10),
    .at 2 (.claim 2 1 1),
    .at 3 (.finish 3 1 1 (.raised "timeout")),
    .at 4 (.claim 4 1 1),
    .at 5 (.finish 5 1 1 (.invalid "unknown action" none))]

theorem retryRun_log : ∃ σ, runActs .minutely {} retryRun = some σ ∧
    (∀ r ∈ σ.tables.runs, replay (σ.tables.runLog r.runId) = some r.status) ∧
    σ.tables.runs.map (·.status) = [.failed] := by
  have hsome : (runActs .minutely {} retryRun).isSome = true := by decide +kernel
  obtain ⟨σ, hσ⟩ := Option.isSome_iff_exists.mp hsome
  refine ⟨σ, hσ, fun r hr => (outbox_is_log (Reach.init.runActs ?_ hσ) r hr).2.2.2, ?_⟩
  · intro τ a ha
    simp only [retryRun, List.mem_cons, List.not_mem_nil, or_false] at ha
    rcases ha with rfl | rfl | rfl | rfl | rfl | rfl <;> trivial
  · have : (runActs .minutely {} retryRun).map (fun σ => σ.tables.runs.map (·.status)) =
        some [.failed] := by decide +kernel
    rw [hσ] at this
    exact Option.some.inj this

end Sys

end TaskScheduler
