import TaskScheduler.Fleet.Recover
import TaskScheduler.Interleave.Lineage
import TaskScheduler.Interleave.Logs

/-! The batches of the watcher and of the sweeps, statement by statement.  Each of them locks the runs
that it works on as it selects them, and skips those that another transaction has locked, so that
nothing comes between what it reads and what it commits: the events of a batch tell what its commit
makes of the runs, and no run is published twice. -/

namespace TaskScheduler

open Lib

/-- The runs that a batch selects. -/
def Kind.takes : Kind → JobRun → Bool
  | .publish now _ => duePending now
  | .sweepA now grace _ => staleRetrying now grace
  | .sweepB now _ grace _ _ => stuckQueued now grace
  | .sweepC now _ grace _ => orphanRunning now grace
  | _ => fun _ => false

/-- The event tells how the run `c` goes over to `v`. -/
structure RunEvent.Tells (e : RunEvent) (c v : JobRun) : Prop where
  runId : c.runId = e.runId
  jobId : c.jobId = e.jobId
  statusFrom : e.statusFrom = some c.status
  statusTo : e.statusTo = some v.status
  transition : Transition c.status v.status e.eventType

/-! ### The account of a batch -/

/-- What a batch has in hand: nothing before its select, and then the runs that it has locked and that
no event tells of yet, each as it was read and as the session sees it. -/
abbrev Hand := Option (List (JobRun × JobRun))

/-- Runs as they were read. -/
def Hand.read (rows : List JobRun) : Hand := some (rows.map fun r => (r, r))

/-- Every run in hand is still as it was read. -/
def Hand.Settled (hand : Hand) : Prop := ∀ xs, hand = some xs → ∀ x ∈ xs, x.2 = x.1

theorem Hand.read_settled (rows : List JobRun) : (Hand.read rows).Settled := by
  intro xs hxs x hx
  cases hxs
  obtain ⟨r, -, rfl⟩ := List.mem_map.mp hx
  rfl

/-- The statements of a batch: it locks runs once, updates only those that it has in hand, and lets go
of a run with the event that tells what has become of it. -/
def batchAccount (takes : JobRun → Bool) : Account Stmt Reply Hand where
  may
    | .lockRuns p _, hand => hand = none ∧ ∀ r, p r = true → takes r = true
    | .updateRuns p set, some xs => (∀ r : JobRun, r.SameRun (set r)) ∧
      ∀ r, p r = true → ∃ x ∈ xs, x.1.runId = r.runId
    | .insertEvent row, some xs => ∃ x ∈ xs, row.Tells x.1 x.2
    | .selectJobs _, _ => True
    | .updateJobs _ _, hand => hand.isSome = true
    | _, _ => False
  next
    | .lockRuns _ _, _, rows, hand => (rows.map (·.runId)).Nodup ∧ rows.all takes = true ∧
      hand = .read rows
    | .updateRuns p set, hand, _, hand' =>
      hand' = hand.map (·.map fun x => (x.1, if p x.2 then set x.2 else x.2))
    | .insertEvent row, hand, _, hand' => hand' = hand.map (·.filter fun x => x.1.runId != row.runId)
    | _, hand, _, hand' => hand' = hand

section Programs

variable {takes : JobRun → Bool} {E : Err → Hand → Prop} {rows : List JobRun}

/-- The rest of a list of runs with keys of their own, without the first of them. -/
theorem filter_rest {α : Type} {f : JobRun → α} {r : JobRun} {rest : List JobRun}
    (hnd : ((r :: rest).map (·.runId)).Nodup) :
    (((r :: rest).map fun r => (r, f r)).filter fun x => x.1.runId != r.runId) =
      rest.map fun r => (r, f r) := by
  rw [List.map_cons, List.nodup_cons] at hnd
  rw [List.map_cons, List.filter_cons_of_neg (by simp), List.filter_eq_self]
  intro x hx
  obtain ⟨y, hy, rfl⟩ := List.mem_map.mp hx
  simp only [bne_iff_ne, ne_eq]
  exact fun heq => hnd.1 (heq ▸ List.mem_map_of_mem hy)

/-- A batch that updates all of its runs and then tells of each. -/
theorem tellAll_batch (set : JobRun → JobRun) (hset : ∀ r : JobRun, r.SameRun (set r))
    {row : JobRun → RunEvent} (hrow : ∀ r, takes r = true → (row r).Tells r (set r))
    (hnd : (rows.map (·.runId)).Nodup) (htakes : ∀ r ∈ rows, takes r = true) {α : Type} (a : α) :
    (Txn.updateRuns (fun r => decide (r.runId ∈ rows.map (·.runId))) set >>= fun _ =>
      rows.forM (fun r => Txn.insertEvent (row r)) >>= fun _ => (Program.ret a : Txn α)).wp
      (batchAccount takes) E (fun _ hand => hand.Settled) (.read rows) := by
  refine ⟨⟨hset, fun r hr => ?_⟩, fun _ hand hhand => ?_⟩
  · obtain ⟨x, hx, hid⟩ := List.mem_map.mp (of_decide_eq_true hr)
    exact ⟨(x, x), List.mem_map_of_mem hx, hid⟩
  have hall : hand = some (rows.map fun r => (r, set r)) := by
    rw [hhand, Hand.read, Option.map_some, List.map_map]
    refine congrArg some (List.map_congr_left fun r hr => ?_)
    have hin : r.runId ∈ rows.map (·.runId) := List.mem_map_of_mem hr
    rw [Function.comp_apply, if_pos (decide_eq_true hin)]
  change (rows.forM (fun r => Txn.insertEvent (row r)) >>= fun _ => (Program.ret a : Txn α)).wp
    (batchAccount takes) E (fun _ hand => hand.Settled) hand
  rw [Program.wp_bind]
  refine Program.wp_forM (fun rest hand => hand = some (rest.map fun r => (r, set r)) ∧
    (rest.map (·.runId)).Nodup ∧ ∀ r ∈ rest, takes r = true) (fun r rest hand h => ?_)
    (fun hand h => ?_) rows hand ⟨hall, hnd, htakes⟩
  · obtain ⟨rfl, hnd, htakes⟩ := h
    have htells := hrow r (htakes r List.mem_cons_self)
    refine ⟨⟨(r, set r), List.mem_cons_self, htells⟩, fun _ hand hhand => ⟨?_, ?_, fun x hx => ?_⟩⟩
    · rw [hhand, Option.map_some, ← htells.runId, filter_rest hnd]
    · rw [List.map_cons] at hnd
      exact (List.nodup_cons.mp hnd).2
    · exact htakes x (List.mem_cons_of_mem _ hx)
  · obtain ⟨rfl, -⟩ := h
    intro xs hxs x hx
    cases hxs
    cases hx

/-- A batch that goes over its runs one by one: `xs` are those in hand, and those to come are among
them. -/
structure OneByOne (takes : JobRun → Bool) (rest : List JobRun) (hand : Hand) : Prop where
  nodup : (rest.map (·.runId)).Nodup
  read : ∃ xs : List JobRun, hand = .read xs ∧ (xs.map (·.runId)).Nodup ∧
    (∀ r ∈ xs, takes r = true) ∧ ∀ r ∈ rest, r ∈ xs

theorem OneByOne.skip {r : JobRun} {rest : List JobRun} {hand : Hand}
    (h : OneByOne takes (r :: rest) hand) : OneByOne takes rest hand := by
  obtain ⟨xs, hhand, hxs, htakes, hrest⟩ := h.read
  refine ⟨?_, xs, hhand, hxs, htakes, fun x hx => hrest x (List.mem_cons_of_mem _ hx)⟩
  have hnd := h.nodup
  rw [List.map_cons] at hnd
  exact (List.nodup_cons.mp hnd).2

/-- One run of the batch is updated and told of. -/
theorem OneByOne.tell {r : JobRun} {rest : List JobRun} {hand : Hand}
    (h : OneByOne takes (r :: rest) hand) (set : JobRun → JobRun)
    (hset : ∀ r : JobRun, r.SameRun (set r)) {row : RunEvent}
    (hrow : takes r = true → row.Tells r (set r)) {α : Type} {t : Txn α} {Q : α → Hand → Prop}
    (ht : ∀ hand, OneByOne takes rest hand → t.wp (batchAccount takes) E Q hand) :
    (Txn.updateRuns (fun r' => r'.runId == r.runId) set >>= fun _ =>
      Txn.insertEvent row >>= fun _ => t).wp (batchAccount takes) E Q hand := by
  have hskip := h.skip
  obtain ⟨xs, rfl, hxs, htakes, hrest⟩ := h.read
  have hr := hrest r List.mem_cons_self
  have htells := hrow (htakes r hr)
  refine ⟨⟨hset, fun x hx => ⟨(r, r), List.mem_map_of_mem hr, (beq_iff_eq.mp hx).symm⟩⟩,
    fun _ hand hhand => ⟨?_, fun _ hand' hhand' => ht hand' ⟨hskip.nodup, ?_⟩⟩⟩
  · rw [hhand]
    refine ⟨(r, set r), List.mem_map.mpr ⟨(r, r), List.mem_map_of_mem hr, ?_⟩, htells⟩
    simp
  · refine ⟨xs.filter fun x => x.runId != r.runId, ?_, hxs.sublist (List.filter_sublist.map _),
      fun x hx => htakes x (List.mem_filter.mp hx).1, fun x hx => List.mem_filter.mpr ⟨?_, ?_⟩⟩
    · rw [hhand', hhand, Hand.read, Hand.read, Option.map_some, Option.map_some, List.map_map,
        List.filter_map, ← htells.runId]
      refine congrArg some (List.map_congr_left fun x hx => ?_)
      have hne := (List.mem_filter.mp hx).2
      simp only [Function.comp_apply, bne_iff_ne, ne_eq] at hne
      simp [hne]
    · exact hrest x (List.mem_cons_of_mem _ hx)
    · have hnd := h.nodup
      rw [List.map_cons, List.nodup_cons] at hnd
      simp only [bne_iff_ne, ne_eq]
      exact fun heq => hnd.1 (heq ▸ List.mem_map_of_mem hx)

theorem OneByOne.settled {rest : List JobRun} {hand : Hand} (h : OneByOne takes rest hand) :
    hand.Settled := by
  obtain ⟨xs, rfl, -⟩ := h.read
  exact Hand.read_settled xs

theorem OneByOne.start (hnd : (rows.map (·.runId)).Nodup) (htakes : ∀ r ∈ rows, takes r = true) :
    OneByOne takes rows (.read rows) :=
  ⟨hnd, rows, rfl, hnd, htakes, fun _ h => h⟩

end Programs

/-- A batch begins with its select. -/
theorem lockRuns_batch {α β : Type} {takes p : JobRun → Bool} {limit : Nat}
    {E : Err → Hand → Prop} {f : List JobRun → Txn α} {b : β} (hp : ∀ r, p r = true → takes r = true)
    (hf : ∀ rows : List JobRun, (rows.map (·.runId)).Nodup → (∀ r ∈ rows, takes r = true) →
      (f rows).wp (batchAccount takes) E (fun _ hand => hand.Settled) (.read rows)) :
    (Txn.lockRuns p limit >>= f >>= fun _ => (Program.ret b : Txn β)).wp (batchAccount takes) E
      (fun _ hand => hand.Settled) none := by
  rw [Program.wp_bind]
  refine ⟨⟨rfl, hp⟩, fun rows hand h => ?_⟩
  obtain ⟨hnd, htakes, rfl⟩ := h
  exact hf rows hnd (List.all_eq_true.mp htakes)

theorem selectJobs_batch {α : Type} {takes : JobRun → Bool} {p : Job → Bool} {E : Err → Hand → Prop}
    {Q : α → Hand → Prop} {f : List Job → Txn α} {hand : Hand}
    (hf : ∀ jobs : List Job, (f jobs).wp (batchAccount takes) E Q hand) :
    (Txn.selectJobs p >>= f).wp (batchAccount takes) E Q hand := by
  refine ⟨trivial, fun jobs hand' h => ?_⟩
  obtain rfl : hand' = hand := h
  exact hf jobs

/-- A batch keeps to its account, and lets go of no run that it has changed without an event. -/
theorem Kind.batch {k : Kind} (hk : k.locks = true) (cfg : Config) :
    (k.prog cfg).wp (batchAccount k.takes) (fun _ _ => True) (fun _ hand => hand.Settled) none := by
  cases k with
  | publish now n =>
    refine lockRuns_batch (fun r hr => hr) fun rows hnd htakes => ?_
    split
    · exact Hand.read_settled rows
    · refine tellAll_batch (JobRun.queue now) (fun r => ⟨rfl, rfl, rfl, rfl, rfl⟩) (fun r hr => ?_) hnd
        htakes _
      simp only [Kind.takes, duePending, Bool.and_eq_true, beq_iff_eq] at hr
      exact ⟨rfl, rfl, congrArg some hr.1.symm, rfl, hr.1 ▸ .publish⟩
  | sweepA now grace n =>
    refine lockRuns_batch (fun r hr => hr) fun rows hnd htakes => ?_
    split
    · exact Hand.read_settled rows
    · refine tellAll_batch (JobRun.fail now "exceeded_max_receive (likely DLQ)")
        (fun r => ⟨rfl, rfl, rfl, rfl, rfl⟩) (fun r hr => ?_) hnd htakes _
      simp only [Kind.takes, staleRetrying, Bool.and_eq_true, beq_iff_eq] at hr
      exact ⟨rfl, rfl, congrArg some hr.1.symm, rfl, hr.1 ▸ .deadLetter⟩
  | sweepB now now' grace n sent =>
    refine lockRuns_batch (fun r hr => hr) fun rows hnd htakes => ?_
    rw [Program.wp_bind]
    refine Program.wp_forM (OneByOne _) (fun r rest hand h => ?_) (fun hand h => h.settled) rows _
      (.start hnd htakes)
    unfold requeueRun
    split
    · refine h.tell (fun r' => { r' with updatedAt := now' }) (fun r => ⟨rfl, rfl, rfl, rfl, rfl⟩) (fun hr => ?_) (t := .ret ()) fun _ h => ?_
      · simp only [Kind.takes, stuckQueued, Bool.and_eq_true, beq_iff_eq] at hr
        exact ⟨rfl, rfl, congrArg some hr.1.1.symm, congrArg some hr.1.1.symm, hr.1.1 ▸ .requeue⟩
      · exact h
    · exact h.skip
  | sweepC now now' grace n =>
    refine lockRuns_batch (fun r hr => hr) fun rows hnd htakes => ?_
    split
    · exact Hand.read_settled rows
    · refine selectJobs_batch fun jobs => ?_
      rw [Program.wp_bind]
      refine Program.wp_forM (OneByOne _) (fun r rest hand h => ?_) (fun hand h => h.settled) rows _
        (.start hnd htakes)
      have hrunning : Kind.takes (.sweepC now now' grace n) r = true → r.status = .running := by
        intro hr
        simp only [Kind.takes, orphanRunning, Bool.and_eq_true, beq_iff_eq] at hr
        exact hr.1
      unfold recoverRun
      split
      · refine h.tell (JobRun.queue now') (fun r => ⟨rfl, rfl, rfl, rfl, rfl⟩) (fun hr => ?_) (t := .ret ()) fun _ h => ?_
        · exact ⟨rfl, rfl, congrArg some (hrunning hr).symm, rfl, hrunning hr ▸ .recover⟩
        · exact h
      · refine h.tell (JobRun.fail now' runningOrphanMessage) (fun r => ⟨rfl, rfl, rfl, rfl, rfl⟩) (fun hr => ?_) fun hand h => ?_
        · exact ⟨rfl, rfl, congrArg some (hrunning hr).symm, rfl, hrunning hr ▸ .fail⟩
        · refine ⟨?_, fun _ hand' hhand => ?_⟩
          · obtain ⟨xs, rfl, -⟩ := h.read
            rfl
          · obtain rfl : hand' = hand := hhand
            exact h
  | _ => cases hk

/-! ### The session of a batch -/

namespace Write

/-- The events that the writes insert. -/
def newEvents (ws : List Write) : List RunEvent :=
  ws.filterMap fun
    | .insertEvent e => some e
    | _ => none

/-- The write is one of a batch. -/
def OfBatch : Write → Prop
  | .updateRuns _ set => ∀ r : JobRun, r.SameRun (set r)
  | .updateJobs _ _ | .insertEvent _ => True
  | _ => False

variable {ws : List Write} {t : Tables}

theorem onRun_sameRun (h : ∀ w ∈ ws, w.OfBatch) (r : JobRun) : r.SameRun (onRun ws r) := by
  induction ws generalizing r with
  | nil => exact .refl r
  | cons w ws ih =>
    have hrest := ih fun v hv => h v (List.mem_cons_of_mem _ hv)
    cases w with
    | updateRuns ids set =>
      have hset : ∀ r : JobRun, r.SameRun (set r) := h _ List.mem_cons_self
      rw [onRun]
      split
      · exact (hset r).trans (hrest _)
      · exact hrest r
    | _ => exact hrest r

/-- The writes of a batch add no runs. -/
theorem applyAll_batch_runs (h : ∀ w ∈ ws, w.OfBatch) : (applyAll ws t).runs = t.runs.map (onRun ws) := by
  have hnone : newRuns ws = [] := by
    unfold newRuns
    induction ws using List.reverseRecOn with
    | nil => rfl
    | append_singleton ws w ih =>
      rw [applyAll_append, applyAll_singleton]
      have hws := ih fun v hv => h v (List.mem_append_left _ hv)
      have hw := h w (List.mem_append_right _ (List.mem_singleton_self w))
      cases w with
      | updateRuns ids set => rw [apply, hws, List.map_nil]
      | updateJobs ids set | insertEvent row => exact hws
      | _ => exact hw.elim
  rw [applyAll_runs, hnone, List.append_nil]

theorem applyAll_batch_events (h : ∀ w ∈ ws, w.OfBatch) :
    (applyAll ws t).events = t.events ++ newEvents ws := by
  induction ws generalizing t with
  | nil => exact (List.append_nil _).symm
  | cons w ws ih =>
    have hw := h w List.mem_cons_self
    change (applyAll ws (w.apply t)).events = _
    rw [ih fun v hv => h v (List.mem_cons_of_mem _ hv)]
    cases w with
    | insertEvent row => simp [apply, newEvents]
    | updateRuns ids set | updateJobs ids set => rfl
    | _ => exact hw.elim

end Write

/-- What the writes `ws` of a batch have made of the committed runs, with the runs `xs` in hand: what
they have changed is in hand, or an event tells of it. -/
structure Carries (takes : JobRun → Bool) (t : Tables) (ws : List Write) (held : List Nat)
    (xs : List (JobRun × JobRun)) : Prop where
  plain : ∀ w ∈ ws, w.OfBatch
  nodup : (xs.map (·.1.runId)).Nodup
  rows : ∀ x ∈ xs, x.1 ∈ t.runs ∧ takes x.1 = true ∧ x.1.runId ∈ held ∧ x.2 = Write.onRun ws x.1
  once : ((Write.newEvents ws).map (·.runId)).Nodup
  told : ∀ e ∈ Write.newEvents ws, (∀ x ∈ xs, x.1.runId ≠ e.runId) ∧
    ∃ c ∈ t.runs, takes c = true ∧ c.runId ∈ held ∧ e.Tells c (Write.onRun ws c)
  updates : ∀ ids set, .updateRuns ids set ∈ ws → ∀ id ∈ ids,
    (∃ e ∈ Write.newEvents ws, e.runId = id) ∨ ∃ x ∈ xs, x.1.runId = id

namespace Carries

variable {takes : JobRun → Bool} {t t' : Tables} {ws : List Write} {held : List Nat}
  {xs : List (JobRun × JobRun)}

/-- The batch has locked its runs. -/
theorem read (hcoh : (t.runs.map (·.runId)).Nodup) {rows : List JobRun} (hsub : rows.Sublist t.runs)
    (htakes : ∀ r ∈ rows, takes r = true) (hheld : ∀ r ∈ rows, r.runId ∈ held) :
    Carries takes t [] held (rows.map fun r => (r, r)) := by
  refine ⟨by simp, ?_, fun x hx => ?_, List.nodup_nil, by simp [Write.newEvents], by simp⟩
  · rw [List.map_map]
    exact hcoh.sublist (hsub.map _)
  · obtain ⟨r, hr, rfl⟩ := List.mem_map.mp hx
    exact ⟨hsub.subset hr, htakes r hr, hheld r hr, rfl⟩

/-- What the session sees of a committed run. -/
theorem mem_ids (h : Carries takes t ws held xs) (hcoh : (t.runs.map (·.runId)).Nodup)
    {p : JobRun → Bool} {c : JobRun} (hc : c ∈ t.runs) :
    c.runId ∈ ((Write.applyAll ws t).runs.filter p).map (·.runId) ↔ p (Write.onRun ws c) = true := by
  rw [Write.applyAll_batch_runs h.plain]
  constructor
  · intro hid
    obtain ⟨v, hv, hvid⟩ := List.mem_map.mp hid
    obtain ⟨hv, hp⟩ := List.mem_filter.mp hv
    obtain ⟨d, hd, rfl⟩ := List.mem_map.mp hv
    rw [(Write.onRun_sameRun h.plain d).runId] at hvid
    rwa [← List.inj_on_of_nodup_map hcoh hd hc hvid]
  · intro hp
    refine List.mem_map.mpr ⟨Write.onRun ws c, List.mem_filter.mpr ⟨List.mem_map_of_mem hc, hp⟩, ?_⟩
    exact (Write.onRun_sameRun h.plain c).runId

theorem updateRuns (h : Carries takes t ws held xs) (hcoh : (t.runs.map (·.runId)).Nodup)
    {p : JobRun → Bool} {set : JobRun → JobRun} (hset : ∀ r : JobRun, r.SameRun (set r))
    (hp : ∀ r, p r = true → ∃ x ∈ xs, x.1.runId = r.runId) {held' : List Nat}
    (hheld : ∀ id ∈ held, id ∈ held') :
    Carries takes t (ws ++ [.updateRuns (((Write.applyAll ws t).runs.filter p).map (·.runId)) set])
      held' (xs.map fun x => (x.1, if p x.2 then set x.2 else x.2)) := by
  have hids : ∀ id ∈ ((Write.applyAll ws t).runs.filter p).map (·.runId),
      ∃ x ∈ xs, x.1.runId = id := by
    intro id hid
    obtain ⟨v, hv, rfl⟩ := List.mem_map.mp hid
    exact hp v (List.mem_filter.mp hv).2
  have hon : ∀ c ∈ t.runs, Write.onRun
      (ws ++ [.updateRuns (((Write.applyAll ws t).runs.filter p).map (·.runId)) set]) c =
      if p (Write.onRun ws c) then set (Write.onRun ws c) else Write.onRun ws c := by
    intro c hc
    rw [Write.onRun_append, Write.onRun, Write.onRun, (Write.onRun_sameRun h.plain c).runId]
    exact if_congr (h.mem_ids hcoh hc) rfl rfl
  have hevents : ∀ w, Write.newEvents (ws ++ [.updateRuns w set]) = Write.newEvents ws := fun w => by
    simp [Write.newEvents]
  refine ⟨fun w hw => ?_, ?_, fun x hx => ?_, ?_, fun e he => ?_, fun ids set' hin id hid => ?_⟩
  · rcases List.mem_append.mp hw with hw | hw
    · exact h.plain w hw
    · exact List.mem_singleton.mp hw ▸ hset
  · rw [List.map_map]
    exact h.nodup
  · obtain ⟨y, hy, rfl⟩ := List.mem_map.mp hx
    obtain ⟨hmem, htakes, hlocked, hnow⟩ := h.rows y hy
    exact ⟨hmem, htakes, hheld _ hlocked, by rw [hon _ hmem, ← hnow]⟩
  · rw [hevents]
    exact h.once
  · rw [hevents] at he
    obtain ⟨hout, c, hc, htakes, hlocked, htells⟩ := h.told e he
    refine ⟨fun x hx => ?_, c, hc, htakes, hheld _ hlocked, ?_⟩
    · obtain ⟨y, hy, rfl⟩ := List.mem_map.mp hx
      exact hout y hy
    · -- the update names runs in hand only
      rw [hon c hc, if_neg]
      · exact htells
      · intro hpc
        obtain ⟨x, hx, hid⟩ := hp _ hpc
        rw [(Write.onRun_sameRun h.plain c).runId, htells.runId] at hid
        exact hout x hx hid
  · rw [hevents]
    have hhand : (∃ x ∈ xs, x.1.runId = id) →
        ∃ x ∈ xs.map fun x => (x.1, if p x.2 then set x.2 else x.2), x.1.runId = id := by
      rintro ⟨x, hx, hxid⟩
      exact ⟨_, List.mem_map_of_mem hx, hxid⟩
    rcases List.mem_append.mp hin with hin | hin
    · exact (h.updates ids set' hin id hid).imp_right hhand
    · cases List.mem_singleton.mp hin
      exact .inr (hhand (hids id hid))

theorem insertEvent (h : Carries takes t ws held xs) {e : RunEvent} {x : JobRun × JobRun}
    (hx : x ∈ xs) (he : e.Tells x.1 x.2) :
    Carries takes t (ws ++ [.insertEvent e]) held (xs.filter fun y => y.1.runId != e.runId) := by
  have hon : ∀ c, Write.onRun (ws ++ [.insertEvent e]) c = Write.onRun ws c := fun c => by
    rw [Write.onRun_append]
    rfl
  have hevents : Write.newEvents (ws ++ [.insertEvent e]) = Write.newEvents ws ++ [e] := by
    simp [Write.newEvents]
  have hrest : ∀ y ∈ xs.filter (fun y => y.1.runId != e.runId), y ∈ xs ∧ y.1.runId ≠ e.runId := by
    intro y hy
    obtain ⟨hy, hne⟩ := List.mem_filter.mp hy
    exact ⟨hy, by simpa using hne⟩
  refine ⟨fun w hw => ?_, h.nodup.sublist (List.filter_sublist.map _), fun y hy => ?_, ?_,
    fun e' he' => ?_, fun ids set hin id hid => ?_⟩
  · rcases List.mem_append.mp hw with hw | hw
    · exact h.plain w hw
    · exact List.mem_singleton.mp hw ▸ trivial
  · rw [hon]
    exact h.rows y (hrest y hy).1
  · -- the run was in hand, so that no event has told of it
    rw [hevents, List.map_append, List.map_singleton, List.nodup_append]
    refine ⟨h.once, List.nodup_singleton _, fun a ha b hb => ?_⟩
    obtain ⟨e', he', rfl⟩ := List.mem_map.mp ha
    rw [List.mem_singleton.mp hb, ← he.runId]
    exact fun heq => (h.told e' he').1 x hx heq.symm
  · rw [hevents] at he'
    rcases List.mem_append.mp he' with he' | he'
    · obtain ⟨hout, c, hc, htakes, hlocked, htells⟩ := h.told e' he'
      refine ⟨fun y hy => hout y (hrest y hy).1, c, hc, htakes, hlocked, ?_⟩
      rw [hon]
      exact htells
    · obtain rfl := List.mem_singleton.mp he'
      obtain ⟨hmem, htakes, hlocked, hnow⟩ := h.rows x hx
      refine ⟨fun y hy => (hrest y hy).2, x.1, hmem, htakes, hlocked, ?_⟩
      rw [hon, ← hnow]
      exact he
  · rw [hevents]
    have hold : .updateRuns ids set ∈ ws := by
      rcases List.mem_append.mp hin with hin | hin
      · exact hin
      · cases List.mem_singleton.mp hin
    rcases h.updates ids set hold id hid with ⟨e', he', hid'⟩ | ⟨y, hy, hid'⟩
    · exact .inl ⟨e', List.mem_append_left _ he', hid'⟩
    · by_cases hsame : y.1.runId = e.runId
      · exact .inl ⟨e, List.mem_append_right _ (List.mem_singleton_self e), hsame.symm.trans hid'⟩
      · exact .inr ⟨y, List.mem_filter.mpr ⟨hy, by simpa using hsame⟩, hid'⟩

theorem updateJobs (h : Carries takes t ws held xs) (ids : List Nat) (set : Job → Job) :
    Carries takes t (ws ++ [.updateJobs ids set]) held xs := by
  have hon : ∀ c, Write.onRun (ws ++ [.updateJobs ids set]) c = Write.onRun ws c := fun c => by
    rw [Write.onRun_append]
    rfl
  have hevents : Write.newEvents (ws ++ [.updateJobs ids set]) = Write.newEvents ws := by
    simp [Write.newEvents]
  refine ⟨fun w hw => ?_, h.nodup, fun x hx => ?_, hevents ▸ h.once, fun e he => ?_,
    fun ids' set' hin => ?_⟩
  · rcases List.mem_append.mp hw with hw | hw
    · exact h.plain w hw
    · exact List.mem_singleton.mp hw ▸ trivial
  · rw [hon]
    exact h.rows x hx
  · obtain ⟨hout, c, hc, htakes, hlocked, htells⟩ := h.told e (hevents ▸ he)
    exact ⟨hout, c, hc, htakes, hlocked, hon c ▸ htells⟩
  · rw [hevents]
    rcases List.mem_append.mp hin with hin | hin
    · exact h.updates ids' set' hin
    · cases List.mem_singleton.mp hin

/-- The runs that a batch has locked do not change under it. -/
theorem env (h : Carries takes t ws held xs) {calm : Prop} {locks : Held} (hheld : locks.runs = held)
    (ho : Others calm locks t t') : Carries takes t' ws held xs := by
  have hstays : ∀ c ∈ t.runs, c.runId ∈ held → c ∈ t'.runs := by
    intro c hc hlocked
    obtain ⟨c', hc', -, hsame⟩ := ho.runs c hc
    rwa [← hsame (hheld ▸ hlocked)]
  refine ⟨h.plain, h.nodup, fun x hx => ?_, h.once, fun e he => ?_, h.updates⟩
  · obtain ⟨hmem, htakes, hlocked, hnow⟩ := h.rows x hx
    exact ⟨hstays _ hmem hlocked, htakes, hlocked, hnow⟩
  · obtain ⟨hout, c, hc, htakes, hlocked, htells⟩ := h.told e he
    exact ⟨hout, c, hstays c hc hlocked, htakes, hlocked, htells⟩

end Carries

/-- The session of a batch, with what it has in hand. -/
def Session.Batch (takes : JobRun → Bool) (t : Tables) (ses : Session) : Hand → Prop
  | none => ses.writes = []
  | some xs => Carries takes t ses.writes ses.held.runs xs

theorem Session.Batch.env {takes : JobRun → Bool} {t t' : Tables} {ses : Session} {hand : Hand}
    (h : ses.Batch takes t hand) {calm : Prop} (ho : Others calm ses.held t t') :
    ses.Batch takes t' hand := by
  cases hand with
  | none => exact h
  | some xs => exact Carries.env h rfl ho

/-- A statement of a batch does what its account says. -/
theorem Session.Batch.exec {takes : JobRun → Bool} {pick : Nat → Bool} {others : List Session}
    {t : Tables} (hcoh : (t.runs.map (·.runId)).Nodup) (s : Stmt) (d : Seq × Session) (hand : Hand)
    (r : Reply s) (d' : Seq × Session) (h : d.2.Batch takes t hand)
    (hmay : (batchAccount takes).may s hand) (hexec : s.exec pick others t d = some (r, d')) :
    ∃ hand', (batchAccount takes).next s hand r hand' ∧ d'.2.Batch takes t hand' := by
  obtain ⟨seq, ses⟩ := d
  cases s with
  | lockRuns p limit =>
    obtain ⟨rfl, hp⟩ := hmay
    cases hexec
    have hnil : ses.writes = [] := h
    have hview : ses.view t = t := by rw [Session.view, hnil, Write.applyAll_nil]
    have hsub : (((ses.view t).runs.filter fun r =>
        p r && pick r.runId && !others.any (·.locksRun r.runId)).take limit).Sublist t.runs := by
      rw [hview]
      exact (List.take_sublist _ _).trans List.filter_sublist
    have htakes : ∀ r ∈ ((ses.view t).runs.filter fun r =>
        p r && pick r.runId && !others.any (·.locksRun r.runId)).take limit, takes r = true := by
      intro r hr
      have hin := (List.mem_filter.mp (List.mem_of_mem_take hr)).2
      simp only [Bool.and_eq_true] at hin
      exact hp r hin.1.1
    refine ⟨_, ⟨hcoh.sublist (hsub.map _), List.all_eq_true.mpr htakes, rfl⟩, ?_⟩
    have hread := Carries.read hcoh hsub htakes fun r hr =>
      List.mem_append_left ses.held.runs (List.mem_map_of_mem (f := fun r : JobRun => r.runId) hr)
    rwa [← hnil] at hread
  | updateRuns p set =>
    cases hand with
    | none => exact hmay.elim
    | some xs =>
      simp only [Stmt.exec] at hexec
      split at hexec <;> cases hexec
      exact ⟨_, rfl, Carries.updateRuns h hcoh hmay.1 hmay.2 fun _ => List.mem_append_right _⟩
  | insertEvent row =>
    cases hand with
    | none => exact hmay.elim
    | some xs =>
      cases hexec
      obtain ⟨x, hx, htells⟩ := hmay
      exact ⟨_, rfl, Carries.insertEvent h hx ⟨htells.runId, htells.jobId, htells.statusFrom,
        htells.statusTo, htells.transition⟩⟩
  | updateJobs p set =>
    cases hand with
    | none => cases hmay
    | some xs =>
      simp only [Stmt.exec] at hexec
      split at hexec <;> cases hexec
      exact ⟨_, rfl, Carries.updateJobs h _ set⟩
  | selectJobs p =>
    cases hexec
    exact ⟨hand, rfl, h⟩
  | _ => cases hand <;> exact hmay.elim

/-! ### The commit of a batch -/

/-- The runs of `t` go over to those of `t'` as the new events tell, and only runs that the batch takes
do. -/
structure Tables.Told (takes : JobRun → Bool) (t t' : Tables) (f : JobRun → JobRun)
    (new : List RunEvent) : Prop where
  runs : t'.runs = t.runs.map f
  same : ∀ c ∈ t.runs, c.SameRun (f c)
  events : t'.events = t.events ++ new
  once : (new.map (·.runId)).Nodup
  told : ∀ e ∈ new, ∃ c ∈ t.runs, takes c = true ∧ e.Tells c (f c)
  still : ∀ c ∈ t.runs, (∀ e ∈ new, e.runId ≠ c.runId) → f c = c

theorem Tables.Told.refl (takes : JobRun → Bool) (t : Tables) : t.Told takes t id [] :=
  ⟨(List.map_id _).symm, fun c _ => .refl c, (List.append_nil _).symm, List.nodup_nil, by simp, fun _ _ _ => rfl⟩

theorem Session.Batch.told {takes : JobRun → Bool} {t : Tables} {ses : Session} {hand : Hand}
    (h : ses.Batch takes t hand) (hsettled : hand.Settled) (hcoh : (t.runs.map (·.runId)).Nodup) :
    ∃ f new, t.Told takes (ses.view t) f new := by
  cases hand with
  | none =>
    have hview : ses.view t = t := by rw [Session.view, show ses.writes = [] from h, Write.applyAll_nil]
    refine ⟨id, [], ?_⟩
    rw [hview]
    exact .refl takes t
  | some xs =>
    have hc : Carries takes t ses.writes ses.held.runs xs := h
    refine ⟨Write.onRun ses.writes, Write.newEvents ses.writes, Write.applyAll_batch_runs hc.plain,
      fun c _ => Write.onRun_sameRun hc.plain c, Write.applyAll_batch_events hc.plain, hc.once, fun e he => ?_, fun c hcr hout => ?_⟩
    · obtain ⟨-, c, hcr, htakes, -, htells⟩ := hc.told e he
      exact ⟨c, hcr, htakes, htells⟩
    · by_cases hhand : ∃ x ∈ xs, x.1.runId = c.runId
      · -- a run in hand is as it was read
        obtain ⟨x, hx, hid⟩ := hhand
        obtain ⟨hmem, -, -, hnow⟩ := hc.rows x hx
        have hsame := List.inj_on_of_nodup_map hcoh hmem hcr hid
        rw [← hsame, ← hnow]
        exact hsettled xs rfl x hx
      · refine Write.onRun_eq fun ids set hin hid => ?_
        rcases hc.updates ids set hin _ hid with ⟨e, he, heid⟩ | hx
        · exact hout e he heid
        · exact hhand hx

namespace Sys

variable {cfg : Config} {σ σ' : Sys} {ok : Sys → Act → Prop}

/-- Every open batch keeps to its account. -/
def Batches (σ : Sys) : Prop :=
  ∀ (i : Nat) (o : Open), σ.sessions[i]? = some (some o) → o.kind.locks = true → ∃ hand,
    o.prog.wp (batchAccount o.kind.takes) (fun _ _ => True) (fun _ hand => hand.Settled) hand ∧
      o.ses.Batch o.kind.takes σ.tables hand

/-- What a commit does is what other transactions may do under each open session. -/
theorem Reach.commit_others (h : Reach cfg ok σ) {k : Kind} {seq : Seq} {ses : Session} {won : Bool}
    (hc : Commits .free cfg.libs k σ.tables seq ses won) {j : Nat} {o : Open}
    (ho : σ.sessions[j]? = some (some o)) (happart : ses.Apart o.ses) :
    Others False o.ses.held σ.tables (ses.view σ.tables) :=
  hc.kept.now.others hc.fresh (h.interleaved.good j o ho).kept.now happart

theorem Reach.batches (h : Reach cfg ok σ) : σ.Batches := by
  induction h with
  | init => exact fun i o ho => by simp at ho
  | @step σ σ' a hreach _ hstep ih =>
    have hint := hreach.interleaved
    cases a with
    | atomic k start pick =>
      obtain ⟨henabled, ⟨seq, -, rfl⟩ | ⟨won, seq, ses, hrun, rfl⟩⟩ := step_atomic hstep
      · exact ih
      · obtain ⟨-, happart, -, hc⟩ := hint.atomic henabled (fun _ => True) trivial
          (fun _ _ _ _ _ _ _ _ _ _ => trivial) hrun
        intro j o ho hk
        obtain ⟨hand, hwp, hbatch⟩ := ih j o ho hk
        exact ⟨hand, hwp, hbatch.env
          (hreach.commit_others (hc won rfl) ho (happart _ (open_mem ho)))⟩
    | start k at_ =>
      simp only [Sys.step] at hstep
      split at hstep <;> cases hstep
      intro j o ho hk
      rcases get_append ho with ho | ⟨-, rfl⟩
      · exact ih j o ho hk
      · exact ⟨none, Kind.batch hk cfg, rfl⟩
    | statement i pick =>
      simp only [Sys.step] at hstep
      split at hstep
      · next k s rest ses hi =>
        split at hstep
        · cases hstep
        · next r seq' ses' hexec =>
          cases hstep
          intro j o ho hk
          rcases get_set ho with ⟨-, heq⟩ | ⟨-, ho⟩
          · cases heq
            obtain ⟨hand, ⟨hmay, hrest⟩, hbatch⟩ := ih i _ hi hk
            obtain ⟨hand', hnext, hbatch'⟩ := Session.Batch.exec hint.coherent.runs s _ hand r _ hbatch
              hmay hexec
            exact ⟨hand', hrest r hand' hnext, hbatch'⟩
          · exact ih j o ho hk
      · cases hstep
    | commit i =>
      simp only [Sys.step] at hstep
      split at hstep
      · next k won ses hi =>
        cases hstep
        intro j o ho hk
        rcases get_set ho with ⟨-, hnone⟩ | ⟨hj, ho⟩
        · cases hnone
        · obtain ⟨hand, hwp, hbatch⟩ := ih j o ho hk
          exact ⟨hand, hwp, hbatch.env
            (hreach.commit_others (hint.ends hi) ho (hint.apart i j _ o (Ne.symm hj) hi ho))⟩
      · cases hstep
    | abort i =>
      simp only [Sys.step] at hstep
      split at hstep <;> cases hstep
      intro j o ho hk
      rcases get_set ho with ⟨-, hnone⟩ | ⟨-, ho⟩
      · cases hnone
      · exact ih j o ho hk
    | crash runId jobId =>
      cases hstep
      exact ih

/-- What a batch commits, its events tell. -/
theorem Reach.step_told (h : Reach cfg ok σ) {a : Act} (hstep : σ.step cfg a = some σ') {k : Kind}
    (hends : σ.ends k a) (hk : k.locks = true) :
    ∃ f new, σ.tables.Told k.takes σ'.tables f new := by
  have hcoh := h.interleaved.coherent.runs
  cases a with
  | atomic k' start pick =>
    obtain ⟨rfl, -⟩ := hends
    obtain ⟨-, ⟨seq, -, rfl⟩ | ⟨won, seq, ses, hrun, rfl⟩⟩ := step_atomic hstep
    · exact ⟨id, [], .refl _ _⟩
    · obtain ⟨hand, hbatch, hsettled⟩ := Program.run_of_wp
        (fun (d : Seq × Session) hand => d.2.Batch k'.takes σ.tables hand)
        (fun s d hand r d' => Session.Batch.exec hcoh s d hand r d') (k'.prog cfg)
        (σ.seq, { start }) none rfl (Kind.batch hk cfg) hrun
      exact Session.Batch.told hbatch hsettled hcoh
  | commit i =>
    obtain ⟨o, ho, rfl⟩ := hends
    simp only [Sys.step] at hstep
    split at hstep
    · next k won ses hi =>
      cases hstep
      rw [hi] at ho
      cases ho
      obtain ⟨hand, hsettled, hbatch⟩ := h.batches i _ hi hk
      exact hbatch.told hsettled hcoh
    · cases hstep
  | _ => exact hends.elim

end Sys

/-! ### Publishing -/

/-- The write publishes no run and makes none PENDING again. -/
def Write.Unpublishing : Write → Prop
  | .updateRuns _ set => ∀ r : JobRun, r.SameRun (set r) ∧
    ((set r).status = .pending → r.status = .pending)
  | .insertEvent row => row.eventType ≠ .queued
  | _ => True

theorem Outcome.status_ne_pending (outcome : Outcome) : outcome.status ≠ .pending := by
  cases outcome with
  | returned res =>
    simp only [Outcome.status]
    split
    · simp
    · split <;> simp
  | raised message | invalid message eventData => simp [Outcome.status]

theorem Kind.Updates.pending {k : Kind} {p : JobRun → Bool} {set : JobRun → JobRun}
    (h : k.Updates p set) (r : JobRun) : (set r).status = .pending → r.status = .pending := by
  cases h with
  | finish =>
    rw [Outcome.write_status]
    intro hpending
    exact absurd hpending (Outcome.status_ne_pending _)
  | heartbeat | sweepB => exact id
  | _ => exact fun h => by cases h

/-- A transaction other than the watcher's publishes nothing. -/
theorem Kind.unpublishing (k : Kind) (cfg : Config) :
    (k.prog cfg).Issues (Stmt.Makes fun w => k.locks = false → w.Unpublishing) := by
  refine ((k.runs cfg).and (k.issues_logs cfg)).mono fun s hs => ?_
  obtain ⟨hruns, hlogs⟩ := hs
  cases s with
  | updateRuns p set => exact fun ids _ _ r => ⟨hruns.sameRun r, hruns.pending r⟩
  | insertEvent row =>
    intro seq start hlocks (hqueued : row.eventType = .queued)
    have hlogs : k.logs row.eventType := hlogs
    rw [hqueued] at hlogs
    cases k with
    | publish now n => cases hlocks
    | create now args | claim now runId jobId | cancel now userId jobId => cases hlogs
    | heartbeat now runId => exact hlogs
    | finish now runId jobId outcome | poll now n | deliver now event => simp [Kind.logs] at hlogs
    | sweepA now grace n | sweepB now now' grace n sent | sweepC now now' grace n => cases hlocks
  | insertJob row | insertRun row => exact fun _ _ _ => trivial
  | updateJobs p set | updateEvents p set => exact fun _ _ => trivial
  | _ => trivial

theorem Transition.ne_pending {s s' : RunStatus} {type : EventType} (h : Transition s s' type) :
    s' ≠ .pending := by
  rintro rfl
  cases h

theorem Transition.publishes {s s' : RunStatus} (h : Transition s s' .queued) : s = .pending := by
  cases h
  rfl

/-- The event records that run `runId` was published. -/
def RunEvent.publishes (runId : Nat) (e : RunEvent) : Bool :=
  e.runId == runId && e.eventType == .queued

/-- A run was published once at most, and not before it left PENDING. -/
structure Tables.Published (t : Tables) : Prop where
  once : ∀ runId, t.events.countP (RunEvent.publishes runId) ≤ 1
  pending : ∀ r ∈ t.runs, r.status = .pending → t.events.countP (RunEvent.publishes r.runId) = 0

theorem countP_publishes_le_one {new : List RunEvent} (h : (new.map (·.runId)).Nodup) (runId : Nat) :
    new.countP (RunEvent.publishes runId) ≤ 1 := by
  calc new.countP (RunEvent.publishes runId)
      ≤ new.countP fun e => e.runId == runId :=
        List.countP_mono_left fun e _ he => (Bool.and_eq_true_iff.mp he).1
    _ = (new.map (·.runId)).count runId := by rw [List.count, List.countP_map]; rfl
    _ ≤ 1 := List.nodup_iff_count_le_one.mp h runId

namespace Tables.Published

variable {t t' : Tables}

/-- The commit of a batch: what it publishes was PENDING, and is told of once. -/
theorem told (h : t.Published) (hcoh : (t.runs.map (·.runId)).Nodup) {takes : JobRun → Bool}
    {f : JobRun → JobRun} {new : List RunEvent} (htold : t.Told takes t' f new) : t'.Published := by
  refine ⟨fun runId => ?_, fun r hr hpending => ?_⟩
  · rw [htold.events, List.countP_append]
    by_cases hnew : ∃ e ∈ new, e.publishes runId = true
    · obtain ⟨e, he, hpub⟩ := hnew
      simp only [RunEvent.publishes, Bool.and_eq_true, beq_iff_eq] at hpub
      obtain ⟨c, hc, -, htells⟩ := htold.told e he
      have htransition := htells.transition
      rw [hpub.2] at htransition
      have hold := h.pending c hc htransition.publishes
      rw [htells.runId, hpub.1] at hold
      have hone := countP_publishes_le_one htold.once runId
      omega
    · have hzero : new.countP (RunEvent.publishes runId) = 0 :=
        List.countP_eq_zero.mpr fun e he hpub => hnew ⟨e, he, hpub⟩
      have hold := h.once runId
      omega
  · rw [htold.runs] at hr
    obtain ⟨c, hc, rfl⟩ := List.mem_map.mp hr
    by_cases hnew : ∃ e ∈ new, e.runId = c.runId
    · -- nothing goes over to PENDING
      obtain ⟨e, he, hid⟩ := hnew
      obtain ⟨d, hd, -, htells⟩ := htold.told e he
      have hsame := List.inj_on_of_nodup_map hcoh hd hc (htells.runId.trans hid)
      exact absurd (hsame ▸ hpending) htells.transition.ne_pending
    · have hstill := htold.still c hc fun e he hid => hnew ⟨e, he, hid⟩
      rw [hstill] at hpending ⊢
      rw [htold.events, List.countP_append, h.pending c hc hpending, Nat.zero_add,
        List.countP_eq_zero]
      intro e he hpub
      exact hnew ⟨e, he, beq_iff_eq.mp (Bool.and_eq_true_iff.mp hpub).1⟩

/-- The commit of another transaction. -/
theorem commit {libs : Libs} {k : Kind} {seq : Seq} {ses : Session} {won : Bool} (h : t.Published)
    (hc : Commits .free libs k t seq ses won) (hcoh : Coherent t seq)
    (hmade : ∀ w ∈ ses.writes, w.Unpublishing) : (ses.view t).Published := by
  have hend := hc.kept.now.replays.invariant
    (P := fun t' => (∀ id, t'.events.countP (RunEvent.publishes id) =
      t.events.countP (RunEvent.publishes id)) ∧
      ∀ v ∈ t'.runs, (∃ c ∈ t.runs, c.runId = v.runId ∧ (v.status = .pending → c.status = .pending)) ∨
        Key.run v.runId ∈ ses.keys) (fun t' w hw hI hvalid => ?_)
    ⟨fun _ => rfl, fun v hv => .inl ⟨v, hv, rfl, id⟩⟩
  · have hevents : ∀ id, (ses.view t).events.countP (RunEvent.publishes id) =
        t.events.countP (RunEvent.publishes id) := hend.1
    have hruns := hend.2
    refine ⟨fun id => hevents id ▸ h.once id, fun v hv hpending => ?_⟩
    rw [hevents]
    rcases hruns v hv with ⟨c, hcr, hid, hback⟩ | hkey
    · exact hid ▸ h.pending c hcr (hback hpending)
    · -- no event is of a run that is new
      refine List.countP_eq_zero.mpr fun e he hpub => hc.fresh.new _ hkey ?_
      obtain ⟨r, hr, hid, -⟩ := hcoh.event_run e he
      refine Tables.mem_keys_run.mpr ⟨r, hr, ?_⟩
      exact hid.trans (beq_iff_eq.mp (Bool.and_eq_true_iff.mp hpub).1)
  · obtain ⟨hevents, hruns⟩ := hI
    have hquiet := hmade w hw
    cases w with
    | insertRun row =>
      refine ⟨hevents, fun v hv => ?_⟩
      rcases List.mem_append.mp hv with hv | hv
      · exact hruns v hv
      · rw [List.mem_singleton.mp hv]
        exact .inr (List.mem_filterMap.mpr ⟨_, hw, rfl⟩)
    | updateRuns ids set =>
      refine ⟨hevents, fun v hv => ?_⟩
      obtain ⟨x, hx, rfl⟩ := List.mem_map.mp hv
      split
      · obtain ⟨hsame, hback⟩ := hquiet x
        rw [hsame.runId]
        refine (hruns x hx).imp_left fun ⟨c, hcr, hid, hpending⟩ => ⟨c, hcr, hid, ?_⟩
        exact fun hp => hpending (hback hp)
      · exact hruns x hx
    | insertEvent row =>
      refine ⟨fun id => ?_, hruns⟩
      have hnone : RunEvent.publishes id row = false := by
        simp only [RunEvent.publishes, Bool.and_eq_false_iff, beq_eq_false_iff_ne]
        exact .inr hquiet
      simp only [Write.apply, List.countP_append, List.countP_singleton, hnone, hevents id]
      rfl
    | updateEvents ids set =>
      obtain ⟨e₀, by_, -, rfl, -⟩ := hvalid
      refine ⟨fun id => ?_, hruns⟩
      rw [← hevents id, Write.apply, List.countP_map]
      refine List.countP_congr fun e _ => ?_
      simp only [Function.comp_apply]
      split <;> rfl
    | _ => exact ⟨hevents, hruns⟩

end Tables.Published

namespace Sys

variable {cfg : Config} {σ σ' : Sys} {ok : Sys → Act → Prop}

theorem Reach.published (h : Reach cfg ok σ) : σ.tables.Published := by
  induction h with
  | init => exact ⟨fun _ => Nat.zero_le 1, fun r hr => by cases hr⟩
  | @step σ σ' a hreach _ hstep ih =>
    rcases hreach.step_made (fun k => k.unpublishing cfg) hstep with
      heq | ⟨k, seq, ses, won, hc, hcoh, hmade, heq, hends⟩
    · exact heq ▸ ih
    cases hk : k.locks with
    | true =>
      obtain ⟨f, new, htold⟩ := hreach.step_told hstep hends hk
      exact ih.told hreach.interleaved.coherent.runs htold
    | false => exact heq ▸ ih.commit hc hcoh fun w hw => hmade.now w hw hk

/-- Whatever interleaves with the watcher and the sweeps, statement by statement: what one of them
commits is what its events tell, of runs that it takes in the state that it commits over; and no run
is published twice. -/
theorem batches_exact (h : Reach cfg ok σ) :
    (∀ a σ' k, σ.step cfg a = some σ' → σ.ends k a → k.locks = true →
      ∃ f new, σ.tables.Told k.takes σ'.tables f new) ∧
    ∀ runId, σ.tables.events.countP (RunEvent.publishes runId) ≤ 1 :=
  ⟨fun _ _ _ hstep hends hk => h.step_told hstep hends hk, h.published.once⟩

/-- Two watchers see the same due run: the second one skips what the first one has locked. -/
def watchersRun : List Act :=
  [.at 0 (.create 0 (.echo none none none)), .start (.publish second 10) second,
    .statement 0 fun _ => true, .start (.publish second 10) second, .statement 1 fun _ => true,
    .statement 0 fun _ => true, .statement 0 fun _ => true, .commit 1]

theorem watchersRun_exact : ∃ σ σ', runActs .minutely {} watchersRun = some σ ∧
    σ.step .minutely (.commit 0) = some σ' ∧
    σ'.tables.events.map (fun e => (e.runId, e.eventType)) = [(1, .created), (1, .queued)] ∧
    (∃ f new, σ.tables.Told (Kind.takes (.publish second 10)) σ'.tables f new) ∧
    ∀ runId, σ'.tables.events.countP (RunEvent.publishes runId) ≤ 1 := by
  have hrun : (runActs .minutely {} watchersRun).map (fun σ => decide (
      (σ.sessions[0]?.join.map fun o => match o.kind with
        | .publish now n => decide (now = second ∧ n = 10)
        | _ => false) = some true ∧
      (σ.step .minutely (.commit 0)).map (fun σ' =>
        σ'.tables.events.map fun e => (e.runId, e.eventType)) =
          some [(1, .created), (1, .queued)])) = some true := by
    decide +kernel
  obtain ⟨σ, hσ, hend⟩ := Option.map_eq_some_iff.mp hrun
  obtain ⟨hsession, hcommit⟩ := of_decide_eq_true hend
  obtain ⟨σ', hstep, hevents⟩ := Option.map_eq_some_iff.mp hcommit
  obtain ⟨o, ho, hkind⟩ := Option.map_eq_some_iff.mp hsession
  have hreach : Reach .minutely (fun _ _ => True) σ := Reach.init.runActs (fun _ _ _ => trivial) hσ
  have hpublish : o.kind = .publish second 10 := by
    split at hkind
    · next now n heq =>
      obtain ⟨rfl, rfl⟩ := of_decide_eq_true hkind
      exact heq
    · cases hkind
  refine ⟨σ, σ', hσ, hstep, hevents, ?_, ?_⟩
  · exact (batches_exact hreach).1 (.commit 0) σ' _ hstep ⟨o, Option.join_eq_some_iff.mp ho, hpublish⟩ rfl
  · exact (batches_exact (hreach.step trivial hstep)).2

end Sys

end TaskScheduler
