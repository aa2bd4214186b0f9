import TaskScheduler.Interleave.Writers

/-! The sessions of the open transactions beside each other: every kind of transaction makes valid
writes only, no two sessions hold a lock or insert a key together, and what one of them commits is
what `Others` allows to each of the rest. -/

namespace TaskScheduler

open Lib

/-! ### Every transaction -/

/-- The terms that ask for nothing. -/
def Terms.free : Terms := ⟨False, False, fun _ => True, fun _ _ => True, fun _ _ => True⟩

/-- The kinds whose transactions keep the terms. -/
def Terms.Admits (τ : Terms) (libs : Libs) (k : Kind) : Prop :=
  match k with
  | .create _ _ => True
  | .cancel _ _ _ => τ.Flips
  | .poll _ _ | .deliver _ _ => ∀ e, Continues τ libs k e
  | _ => ¬τ.final

namespace Kind

/-- What a process has read before it begins the transaction. -/
def Ready (t : Tables) : Kind → Prop
  | .claim _ runId jobId | .finish _ runId jobId _ =>
    ∃ r ∈ t.runs, r.runId = runId ∧ r.jobId = jobId
  | .deliver _ event => event.eventType.terminal = true ∧ ∃ e ∈ t.events, event.SameEvent e
  | _ => True

/-- What holds of the session of a transaction at its end. -/
def Ends (won : Bool) (g : Site) : Kind → Prop
  | .claim _ runId jobId => won = true → g.Won runId jobId
  | .create _ args => g.Created args
  | _ => True

end Kind

theorem wp_quiet_among {α : Type} {acc : Account Stmt Reply Site} {E : Err → Site → Prop} {t : Txn α}
    {g : Site} {Q : Bool → Site → Prop} (h : t.wp acc E (fun _ g' => Q false g') g) :
    t.quiet.wp acc E Q g := by
  unfold Txn.quiet
  rw [Program.wp_bind]
  exact h

/-- Every transaction makes valid writes only, from its first statement to its last. -/
theorem Kind.keeps {cfg : Config} {τ : Terms} (hτ : τ.Stable) {k : Kind}
    (hadm : τ.Admits cfg.libs k) {g : Site} (hk : g.Kept τ cfg.libs k) (hs : g.ses.saved = none)
    (hw : g.ses.writes = []) (hready : k.Ready g.view) :
    (k.prog cfg).wp (amongOthers τ cfg.libs k) (fun _ _ => True)
      (fun won g' => g'.Kept τ cfg.libs k ∧ k.Ends won g') g := by
  cases k with
  | create now args =>
    exact wp_quiet_among (Program.wp_mono (createJob_keeps hτ rfl now args hk hs hw)
      fun _ _ h => ⟨h.1.kept, h.2⟩)
  | publish now batchSize =>
    exact wp_quiet_among (Program.wp_mono (claimAndPublish_keeps hτ hadm now batchSize hk hs hw)
      fun _ _ h => ⟨h.kept, trivial⟩)
  | claim now runId jobId =>
    exact Program.wp_mono (claimTxn_keeps hτ hadm rfl now hk hs hw hready)
      fun _ _ h => ⟨h.1.kept, h.2⟩
  | finish now runId jobId outcome =>
    have hblind : Kind.writesBlindly (.finish now runId jobId outcome) runId := rfl
    exact wp_quiet_among (Program.wp_mono (finishTxn_keeps hτ hadm rfl hblind outcome hk hs hready)
      fun _ _ h => ⟨h.kept, trivial⟩)
  | heartbeat now runId =>
    exact wp_quiet_among (Program.wp_mono (bumpHeartbeatAt_keeps hτ hadm now runId g hk hs)
      fun _ _ h => ⟨h.kept, trivial⟩)
  | sweepA now grace batchSize =>
    exact wp_quiet_among (Program.wp_mono
      (sweepDlqRetrying_keeps hτ hadm now grace batchSize hk hs hw)
      fun _ _ h => ⟨h.kept, trivial⟩)
  | sweepB now now' grace batchSize sent =>
    exact wp_quiet_among (Program.wp_mono
      (sweepQueuedStuck_keeps hτ hadm now now' grace batchSize sent hk hs)
      fun _ _ h => ⟨h.kept, trivial⟩)
  | sweepC now now' grace batchSize =>
    exact wp_quiet_among (Program.wp_mono
      (sweepRunningOrphan_keeps hτ hadm rfl cfg.registry now now' grace batchSize hk hs hw)
      fun _ _ h => ⟨h.kept, trivial⟩)
  | poll now batchSize =>
    exact wp_quiet_among (Program.wp_mono
      (pollOnce_keeps hτ rfl hadm now cfg.depth batchSize g hk hs) fun _ _ h => ⟨h.kept, trivial⟩)
  | deliver now event =>
    exact wp_quiet_among (Program.wp_mono
      (processEvent_keeps hτ rfl (hadm event) hready.1 now cfg.depth hk hs hready.2)
      fun _ _ h => ⟨h.kept, trivial⟩)
  | cancel now userId jobId =>
    exact wp_quiet_among (Program.wp_mono
      (cancelJob_keeps hτ hadm rfl now cfg.depth userId jobId g hk hs)
      fun _ _ h => ⟨h.kept, trivial⟩)

/-! ### Keys -/

/-- A key of one of the three tables. -/
inductive Key
  | job (id : Nat)
  | run (id : Nat)
  | event (id : Nat)
  deriving DecidableEq

/-- The sequence is past the key. -/
def Key.below (seq : Seq) : Key → Prop
  | .job id => id < seq.jobs
  | .run id => id < seq.runs
  | .event id => id < seq.events

theorem Key.below.mono {seq seq' : Seq} {key : Key} (h : key.below seq) (hle : seq.le seq') :
    key.below seq' := by
  cases key with
  | job id => exact Nat.lt_of_lt_of_le h hle.1
  | run id => exact Nat.lt_of_lt_of_le h hle.2.1
  | event id => exact Nat.lt_of_lt_of_le h hle.2.2

/-- The key that a write adds. -/
def Write.key : Write → Option Key
  | .insertJob row => some (.job row.jobId)
  | .insertRun row => some (.run row.runId)
  | .insertEvent row => some (.event row.eventId)
  | _ => none

def Tables.keys (t : Tables) : List Key :=
  t.jobs.map (fun j => .job j.jobId) ++ t.runs.map (fun r => .run r.runId) ++
    t.events.map fun e => .event e.eventId

namespace Tables

variable {t : Tables}

theorem mem_keys_job {id : Nat} : Key.job id ∈ t.keys ↔ ∃ j ∈ t.jobs, j.jobId = id := by
  simp [Tables.keys]

theorem mem_keys_run {id : Nat} : Key.run id ∈ t.keys ↔ ∃ r ∈ t.runs, r.runId = id := by
  simp [Tables.keys]

theorem mem_keys_event {id : Nat} : Key.event id ∈ t.keys ↔ ∃ e ∈ t.events, e.eventId = id := by
  simp [Tables.keys]

theorem keys_nodup_iff : t.keys.Nodup ↔ (t.jobs.map (·.jobId)).Nodup ∧
    (t.runs.map (·.runId)).Nodup ∧ (t.events.map (·.eventId)).Nodup := by
  have hjob : (t.jobs.map fun j => Key.job j.jobId).Nodup ↔ (t.jobs.map (·.jobId)).Nodup := by
    have : Function.Injective Key.job := fun _ _ h => Key.job.inj h
    rw [← List.nodup_map_iff this, List.map_map]
    rfl
  have hrun : (t.runs.map fun r => Key.run r.runId).Nodup ↔ (t.runs.map (·.runId)).Nodup := by
    have : Function.Injective Key.run := fun _ _ h => Key.run.inj h
    rw [← List.nodup_map_iff this, List.map_map]
    rfl
  have hevent : (t.events.map fun e => Key.event e.eventId).Nodup ↔
      (t.events.map (·.eventId)).Nodup := by
    have : Function.Injective Key.event := fun _ _ h => Key.event.inj h
    rw [← List.nodup_map_iff this, List.map_map]
    rfl
  unfold Tables.keys
  rw [List.nodup_append, List.nodup_append, hjob, hrun, hevent]
  constructor
  · rintro ⟨⟨h₁, h₂, -⟩, h₃, -⟩
    exact ⟨h₁, h₂, h₃⟩
  · rintro ⟨h₁, h₂, h₃⟩
    refine ⟨⟨h₁, h₂, fun a ha b hb => ?_⟩, h₃, fun a ha b hb => ?_⟩
    · obtain ⟨j, -, rfl⟩ := List.mem_map.mp ha
      obtain ⟨r, -, rfl⟩ := List.mem_map.mp hb
      simp
    · obtain ⟨e, -, rfl⟩ := List.mem_map.mp hb
      rcases List.mem_append.mp ha with ha | ha
      · obtain ⟨j, -, rfl⟩ := List.mem_map.mp ha
        simp
      · obtain ⟨r, -, rfl⟩ := List.mem_map.mp ha
        simp

end Tables

theorem Coherent.keys_nodup {t : Tables} {seq : Seq} (h : Coherent t seq) : t.keys.Nodup :=
  Tables.keys_nodup_iff.mpr ⟨h.jobs.nodup, h.runs, h.events⟩

theorem Coherent.keys_below {t : Tables} {seq : Seq} (h : Coherent t seq) :
    ∀ key ∈ t.keys, key.below seq := by
  intro key hkey
  cases key with
  | job id =>
    obtain ⟨j, hj, rfl⟩ := Tables.mem_keys_job.mp hkey
    exact h.jobs.below j hj
  | run id =>
    obtain ⟨r, hr, rfl⟩ := Tables.mem_keys_run.mp hkey
    exact h.runs_below r hr
  | event id =>
    obtain ⟨e, he, rfl⟩ := Tables.mem_keys_event.mp hkey
    exact h.events_below e he

/-- References and keys make coherence. -/
theorem Linked.coherent {t : Tables} {seq : Seq} (h : Linked t) (hnd : t.keys.Nodup)
    (hbelow : ∀ key ∈ t.keys, key.below seq) : Coherent t seq := by
  obtain ⟨hjobs, hruns, hevents⟩ := Tables.keys_nodup_iff.mp hnd
  exact
    { lifecycle := h.lifecycle
      jobs := ⟨hjobs, fun j hj => hbelow _ (Tables.mem_keys_job.mpr ⟨j, hj, rfl⟩)⟩
      runs := hruns
      runs_below := fun r hr => hbelow _ (Tables.mem_keys_run.mpr ⟨r, hr, rfl⟩)
      events := hevents
      events_below := fun e he => hbelow _ (Tables.mem_keys_event.mpr ⟨e, he, rfl⟩)
      trigger := h.trigger
      run_job := h.run_job
      event_run := h.event_run }

/-- A valid write adds its key and leaves the others. -/
theorem Valid.keys {τ : Terms} {libs : Libs} {k : Kind} {held : Held} {loaded : List Job}
    {t : Tables} {w : Write} (hw : Valid τ libs k held loaded t w) :
    (w.apply t).keys.Perm (t.keys ++ w.key.toList) := by
  cases w with
  | insertJob row =>
    simp only [Tables.keys, Write.apply, Write.key, Option.toList_some, List.map_append,
      List.map_cons, List.map_nil, List.append_assoc]
    exact List.Perm.append_left _ (List.perm_append_comm.trans (by simp))
  | insertRun row =>
    simp only [Tables.keys, Write.apply, Write.key, Option.toList_some, List.map_append,
      List.map_cons, List.map_nil, List.append_assoc]
    refine List.Perm.append_left _ (List.Perm.append_left _ ?_)
    exact List.perm_append_comm
  | insertEvent row =>
    simp [Tables.keys, Write.apply, Write.key]
  | updateJobs ids set =>
    have : ((Write.updateJobs ids set).apply t).keys = t.keys := by
      simp only [Tables.keys, Write.apply, List.map_map]
      congr 2
      refine List.map_congr_left fun j _ => ?_
      simp only [Function.comp_apply]
      split
      · rw [(sameDef_set hw.2.2.1 j).1]
      · rfl
    rw [this]
    simp [Write.key]
  | updateRuns ids set =>
    have : ((Write.updateRuns ids set).apply t).keys = t.keys := by
      simp only [Tables.keys, Write.apply, List.map_map]
      congr 2
      refine List.map_congr_left fun r _ => ?_
      simp only [Function.comp_apply]
      split
      · rw [(hw.1 r).runId]
      · rfl
    rw [this]
    simp [Write.key]
  | updateEvents ids set =>
    obtain ⟨_, by_, -, rfl, -⟩ := hw
    have : ((Write.updateEvents ids fun x => { x with processedBy := by_ }).apply t).keys =
        t.keys := by
      simp only [Tables.keys, Write.apply, List.map_map]
      congr 1
      refine List.map_congr_left fun e _ => ?_
      simp only [Function.comp_apply]
      split <;> rfl
    rw [this]
    simp [Write.key]

/-- The keys that a session has inserted. -/
def Session.keys (ses : Session) : List Key := ses.writes.filterMap Write.key

theorem Kept.keys {τ : Terms} {libs : Libs} {k : Kind} {writes : List Write} {held : Held}
    {loaded : List Job} {t : Tables} (h : Kept τ libs k writes held loaded t) :
    (Write.applyAll writes t).keys.Perm (t.keys ++ writes.filterMap Write.key) := by
  have hreplays := h.replays
  clear h
  induction writes generalizing t with
  | nil => simp
  | cons w ws ih =>
    have hw := hreplays.1.keys
    refine (ih hreplays.2).trans ?_
    refine (List.Perm.append_right _ hw).trans ?_
    rw [List.append_assoc]
    refine List.Perm.append_left _ ?_
    cases hkey : w.key with
    | none => rw [List.filterMap_cons_none hkey]; simp
    | some key => rw [List.filterMap_cons_some hkey]; simp

/-! ### What a statement does to its session -/

/-- The moves of a session: it writes and locks, or it goes back to its savepoint. -/
inductive Moves (others : List Session) (seq seq' : Seq) (ses ses' : Session) : Prop
  | on (ws : List Write) (hseq : seq.le seq') (hwrites : ses'.writes = ses.writes ++ ws)
      (hnodup : (ws.filterMap Write.key).Nodup)
      (hkeys : ∀ key ∈ ws.filterMap Write.key, ¬key.below seq ∧ key.below seq')
      (hle : ses.held.le ses'.held)
      (hadvisory : ∀ id ∈ ses'.held.advisory,
        id ∈ ses.held.advisory ∨ ∀ o ∈ others, id ∉ o.held.advisory)
      (hjobs : ∀ id ∈ ses'.held.jobs, id ∈ ses.held.jobs ∨ ∀ o ∈ others, id ∉ o.held.jobs)
      (hruns : ∀ id ∈ ses'.held.runs, id ∈ ses.held.runs ∨ ∀ o ∈ others, id ∉ o.held.runs)
      (hsaved : ses'.saved = ses.saved ∨ ses'.saved = none ∨
        ses'.saved = some (ses.writes, ses.held))
  | back (ws : List Write) (held : Held) (hsaved : ses.saved = some (ws, held)) (hseq : seq' = seq)
      (hwrites : ses'.writes = ws) (hheld : ses'.held = held) (hnone : ses'.saved = none)

/-- A statement that leaves the writes and the locks alone. -/
theorem Moves.rest {others : List Session} {seq : Seq} {ses ses' : Session}
    (hwrites : ses'.writes = ses.writes) (hheld : ses'.held = ses.held)
    (hsaved : ses'.saved = ses.saved ∨ ses'.saved = none ∨ ses'.saved = some (ses.writes, ses.held)) :
    Moves others seq seq ses ses' :=
  .on [] seq.le_refl (by simp [hwrites]) (by simp) (by simp) (hheld ▸ .refl _)
    (fun id hid => .inl (hheld ▸ hid)) (fun id hid => .inl (hheld ▸ hid))
    (fun id hid => .inl (hheld ▸ hid)) hsaved

/-- An insert. -/
theorem Moves.insert {others : List Session} {seq seq' : Seq} {ses : Session} {w : Write} {key : Key}
    (hseq : seq.le seq') (hkey : w.key = some key) (hnew : ¬key.below seq) (hnext : key.below seq') :
    Moves others seq seq' ses (ses.write w) := by
  refine .on [w] hseq rfl ?_ ?_ (.refl _) (fun _ h => .inl h) (fun _ h => .inl h)
    (fun _ h => .inl h) (.inl rfl)
  · simp [hkey]
  · intro key' hkey'
    rw [List.filterMap_cons_some hkey, List.filterMap_nil, List.mem_singleton] at hkey'
    rw [hkey']
    exact ⟨hnew, hnext⟩

theorem exec_moves {pick : Nat → Bool} {others : List Session} {t : Tables} {s : Stmt} {seq seq' : Seq}
    {ses ses' : Session} {r : Reply s}
    (h : s.exec pick others t (seq, ses) = some (r, seq', ses')) : Moves others seq seq' ses ses' := by
  cases s with
  | selectJobs p | loadJobs p | ancestors first limit | selectRuns p | selectEvents p limit =>
    cases h
    exact .rest rfl rfl (.inl rfl)
  | insertJob row =>
    simp only [Stmt.exec] at h
    split at h
    · cases h
    · split at h
      · cases h
        exact .on [] ⟨Nat.le_succ _, le_rfl, le_rfl⟩ (by simp) (by simp) (by simp) (.refl _)
          (fun _ h => .inl h) (fun _ h => .inl h) (fun _ h => .inl h) (.inl rfl)
      · cases h
        exact .insert ⟨Nat.le_succ _, le_rfl, le_rfl⟩ rfl (lt_irrefl _) (Nat.lt_succ_self _)
  | updateJobs p set =>
    simp only [Stmt.exec] at h
    split at h
    · cases h
    · next hfree =>
      cases h
      refine .on [_] seq.le_refl rfl (by simp [Write.key, List.filterMap_cons])
        (by simp [Write.key, List.filterMap_cons])
        ⟨fun _ h => h, fun _ h => List.mem_append_right _ h, fun _ h => h⟩ (fun _ h => .inl h)
        (fun id hid => ?_) (fun _ h => .inl h) (.inl rfl)
      rcases List.mem_append.mp hid with hid | hid
      · refine .inr fun o ho hin => hfree (List.any_eq_true.mpr ⟨o, ho, ?_⟩)
        exact List.any_eq_true.mpr ⟨id, hid, by simpa using hin⟩
      · exact .inl hid
  | lockRuns p limit =>
    cases h
    refine .on [] seq.le_refl (by simp) (by simp) (by simp)
      ⟨fun _ h => h, fun _ h => h, fun _ h => List.mem_append_right _ h⟩ (fun _ h => .inl h)
      (fun _ h => .inl h) (fun id hid => ?_) (.inl rfl)
    rcases List.mem_append.mp hid with hid | hid
    · obtain ⟨r, hr, rfl⟩ := List.mem_map.mp hid
      have hp := (List.mem_filter.mp (List.mem_of_mem_take hr)).2
      simp only [Bool.and_eq_true, Bool.not_eq_true', List.any_eq_false, Session.locksRun,
        decide_eq_true_eq] at hp
      exact .inr fun o ho => hp.2 o ho
    · exact .inl hid
  | insertRun row =>
    simp only [Stmt.exec] at h
    split at h
    · cases h
    · split at h
      · cases h
        exact .on [] ⟨le_rfl, Nat.le_succ _, le_rfl⟩ (by simp) (by simp) (by simp) (.refl _)
          (fun _ h => .inl h) (fun _ h => .inl h) (fun _ h => .inl h) (.inl rfl)
      · cases h
        exact .insert ⟨le_rfl, Nat.le_succ _, le_rfl⟩ rfl (lt_irrefl _) (Nat.lt_succ_self _)
  | updateRuns p set =>
    simp only [Stmt.exec] at h
    split at h
    · cases h
    · next hfree =>
      cases h
      refine .on [_] seq.le_refl rfl (by simp [Write.key, List.filterMap_cons])
        (by simp [Write.key, List.filterMap_cons])
        ⟨fun _ h => h, fun _ h => h, fun _ h => List.mem_append_right _ h⟩ (fun _ h => .inl h)
        (fun _ h => .inl h) (fun id hid => ?_) (.inl rfl)
      rcases List.mem_append.mp hid with hid | hid
      · refine .inr fun o ho hin => hfree (List.any_eq_true.mpr ⟨o, ho, ?_⟩)
        exact List.any_eq_true.mpr ⟨id, hid, by simpa using hin⟩
      · exact .inl hid
  | insertEvent row =>
    cases h
    exact .insert ⟨le_rfl, le_rfl, Nat.le_succ _⟩ rfl (lt_irrefl _) (Nat.lt_succ_self _)
  | updateEvents p set =>
    simp only [Stmt.exec] at h
    split at h
    · cases h
    · cases h
      exact .on [_] seq.le_refl rfl (by simp [Write.key, List.filterMap_cons])
        (by simp [Write.key, List.filterMap_cons]) ⟨fun _ h => h, fun _ h => h, fun _ h => h⟩
        (fun _ h => .inl h) (fun _ h => .inl h) (fun _ h => .inl h) (.inl rfl)
  | advisoryLock key =>
    simp only [Stmt.exec] at h
    split at h
    · cases h
    · next hfree =>
      cases h
      refine .on [] seq.le_refl (by simp) (by simp) (by simp)
        ⟨fun _ h => List.mem_cons_of_mem _ h, fun _ h => h, fun _ h => h⟩ (fun id hid => ?_)
        (fun _ h => .inl h) (fun _ h => .inl h) (.inl rfl)
      rcases List.mem_cons.mp hid with rfl | hid
      · exact .inr fun o ho hin => hfree (List.any_eq_true.mpr ⟨o, ho, by simpa using hin⟩)
      · exact .inl hid
  | savepoint =>
    cases h
    exact .rest rfl rfl (.inr (.inr rfl))
  | rollbackTo =>
    simp only [Stmt.exec] at h
    split at h
    · cases h
      exact .rest rfl rfl (.inl rfl)
    · next ws held hsaved =>
      cases h
      exact .back ws held hsaved rfl rfl rfl rfl
  | release =>
    cases h
    exact .rest rfl rfl (.inr (.inl rfl))

/-! ### Sessions beside each other -/

/-- The keys that a session has inserted are its own, and a savepoint is behind it. -/
structure Session.Fresh (t : Tables) (seq : Seq) (ses : Session) : Prop where
  nodup : ses.keys.Nodup
  below : ∀ key ∈ ses.keys, key.below seq
  new : ∀ key ∈ ses.keys, key ∉ t.keys
  saved : ∀ ws held, ses.saved = some (ws, held) → ws <+: ses.writes ∧ held.le ses.held

/-- Two sessions that hold no lock and insert no key together. -/
structure Session.Apart (a b : Session) : Prop where
  keys : ∀ key ∈ a.keys, key ∉ b.keys
  advisory : ∀ id ∈ a.held.advisory, id ∉ b.held.advisory
  jobs : ∀ id ∈ a.held.jobs, id ∉ b.held.jobs
  runs : ∀ id ∈ a.held.runs, id ∉ b.held.runs

theorem Session.Apart.symm {a b : Session} (h : a.Apart b) : b.Apart a :=
  ⟨fun key hb ha => h.keys key ha hb, fun id hb ha => h.advisory id ha hb,
    fun id hb ha => h.jobs id ha hb, fun id hb ha => h.runs id ha hb⟩

theorem Session.keys_append {ses ses' : Session} {ws : List Write}
    (h : ses'.writes = ses.writes ++ ws) : ses'.keys = ses.keys ++ ws.filterMap Write.key := by
  rw [Session.keys, h, List.filterMap_append]
  rfl

section Moves

variable {others : List Session} {seq seq' : Seq} {ses ses' : Session}

theorem Moves.seq_le (h : Moves others seq seq' ses ses') : seq.le seq' := by
  cases h with
  | on ws hseq => exact hseq
  | back ws held hsaved hseq => exact hseq ▸ seq.le_refl

theorem Moves.fresh (h : Moves others seq seq' ses ses') {t : Tables} (hf : ses.Fresh t seq)
    (ht : ∀ key ∈ t.keys, key.below seq) : ses'.Fresh t seq' := by
  cases h with
  | on ws hseq hwrites hnodup hkeys hle hadvisory hjobs hruns hsaved =>
    have happ := Session.keys_append hwrites
    refine ⟨?_, fun key hkey => ?_, fun key hkey hin => ?_, fun ws' held hs => ?_⟩
    · rw [happ, List.nodup_append]
      refine ⟨hf.nodup, hnodup, fun a ha b hb hab => ?_⟩
      exact (hkeys b hb).1 (hab ▸ hf.below a ha)
    · rw [happ] at hkey
      rcases List.mem_append.mp hkey with hkey | hkey
      · exact (hf.below key hkey).mono hseq
      · exact (hkeys key hkey).2
    · rw [happ] at hkey
      rcases List.mem_append.mp hkey with hkey | hkey
      · exact hf.new key hkey hin
      · exact (hkeys key hkey).1 (ht key hin)
    · rcases hsaved with h | h | h
      · obtain ⟨hpre, hheld⟩ := hf.saved ws' held (h ▸ hs)
        exact ⟨hwrites ▸ hpre.trans (List.prefix_append _ _), hheld.trans hle⟩
      · rw [h] at hs
        cases hs
      · rw [h] at hs
        cases hs
        exact ⟨hwrites ▸ List.prefix_append _ _, hle⟩
  | back ws held hsaved hseq hwrites hheld hnone =>
    obtain ⟨⟨rest, hrest⟩, -⟩ := hf.saved ws held hsaved
    have happ : ses.keys = ses'.keys ++ rest.filterMap Write.key :=
      Session.keys_append (by rw [hwrites, hrest])
    have hsub : ∀ key ∈ ses'.keys, key ∈ ses.keys := fun key hkey =>
      happ ▸ List.mem_append_left _ hkey
    refine ⟨?_, fun key hkey => hseq ▸ hf.below key (hsub key hkey),
      fun key hkey => hf.new key (hsub key hkey), fun ws held hs => ?_⟩
    · have := hf.nodup
      rw [happ] at this
      exact (List.nodup_append.mp this).1
    · rw [hnone] at hs
      cases hs

theorem Moves.apart (h : Moves others seq seq' ses ses') {t : Tables} (hf : ses.Fresh t seq)
    {o : Session} (ho : o ∈ others) (hbelow : ∀ key ∈ o.keys, key.below seq) (ha : ses.Apart o) :
    ses'.Apart o := by
  cases h with
  | on ws hseq hwrites hnodup hkeys hle hadvisory hjobs hruns hsaved =>
    refine ⟨fun key hkey hin => ?_, fun id hid => ?_, fun id hid => ?_, fun id hid => ?_⟩
    · rw [Session.keys_append hwrites] at hkey
      rcases List.mem_append.mp hkey with hkey | hkey
      · exact ha.keys key hkey hin
      · exact (hkeys key hkey).1 (hbelow key hin)
    · exact (hadvisory id hid).elim (ha.advisory id) fun h => h o ho
    · exact (hjobs id hid).elim (ha.jobs id) fun h => h o ho
    · exact (hruns id hid).elim (ha.runs id) fun h => h o ho
  | back ws held hsaved hseq hwrites hheld hnone =>
    obtain ⟨⟨rest, hrest⟩, hle⟩ := hf.saved ws held hsaved
    have happ : ses.keys = ses'.keys ++ rest.filterMap Write.key :=
      Session.keys_append (by rw [hwrites, hrest])
    subst hheld
    exact ⟨fun key hkey => ha.keys key (happ ▸ List.mem_append_left _ hkey),
      fun id hid => ha.advisory id (hle.advisory id hid), fun id hid => ha.jobs id (hle.jobs id hid),
      fun id hid => ha.runs id (hle.runs id hid)⟩

end Moves

/-! ### A commit, seen from another session -/

/-- The tables after one more write of a session, seen from another one that holds `held'`. -/
theorem Valid.others {τ : Terms} {libs : Libs} {k : Kind} {held held' : Held} {loaded : List Job}
    {t : Tables} {w : Write} (hw : Valid τ libs k held loaded t w)
    (hadvisory : ∀ id ∈ held.advisory, id ∉ held'.advisory) (hjobs : ∀ id ∈ held.jobs, id ∉ held'.jobs)
    (hruns : ∀ id ∈ held.runs, id ∉ held'.runs)
    (hjob : ∀ id, w.key = some (.job id) → id ∉ held'.jobs)
    (hrun : ∀ id, w.key = some (.run id) → id ∉ held'.runs) : Others False held' t (w.apply t) := by
  have hrefl : Others False held' t t := .refl t
  cases w with
  | insertJob row =>
    refine { hrefl with jobs := fun j hj => ?_, held_jobs := fun j hj hid => ?_ }
    · exact ⟨j, List.mem_append_left _ hj, .inl rfl, fun _ => rfl⟩
    · rcases List.mem_append.mp hj with hj | hj
      · exact hj
      · rw [List.mem_singleton.mp hj] at hid
        exact absurd hid (hjob _ rfl)
  | updateJobs ids set =>
    obtain ⟨-, hheld, ⟨now, hset⟩, hrows⟩ := hw
    refine { hrefl with jobs := fun j hj => ?_, held_jobs := fun j hj hid => ?_ }
    · refine ⟨_, List.mem_map.mpr ⟨j, hj, rfl⟩, ?_⟩
      split
      · next hin =>
        refine ⟨.inr ⟨(hrows j hj hin).1, now, ?_⟩, fun h => absurd h (hjobs _ (hheld _ hin))⟩
        rcases hset with rfl | rfl
        · exact .inl rfl
        · exact .inr rfl
      · exact ⟨.inl rfl, fun _ => rfl⟩
    · obtain ⟨i, hi, rfl⟩ := List.mem_map.mp hj
      split
      · next hin =>
        rw [if_pos hin, (sameDef_set ⟨now, hset⟩ i).1] at hid
        exact absurd hid (hjobs _ (hheld _ hin))
      · exact hi
  | insertRun row =>
    refine { hrefl with runs := fun r hr => ?_, held_runs := fun r hr hid => ?_,
                        locked := fun r hr hid => ?_ }
    · exact ⟨r, List.mem_append_left _ hr, .refl r, fun _ => rfl⟩
    · rcases List.mem_append.mp hr with hr | hr
      · exact hr
      · rw [List.mem_singleton.mp hr] at hid
        exact absurd hid (hrun _ rfl)
    · rcases List.mem_append.mp hr with hr | hr
      · exact ⟨r, hr, .refl r, fun _ => id⟩
      · rw [List.mem_singleton.mp hr] at hid
        exact absurd hid (hadvisory _ hw.locked)
  | updateRuns ids set =>
    obtain ⟨hset, hheld, -⟩ := hw
    refine { hrefl with runs := fun r hr => ?_, held_runs := fun r hr hid => ?_,
                        locked := fun r hr hid => ?_ }
    · refine ⟨_, List.mem_map.mpr ⟨r, hr, rfl⟩, ?_⟩
      split
      · next hin => exact ⟨hset r, fun h => absurd h (hruns _ (hheld _ hin))⟩
      · exact ⟨.refl r, fun _ => rfl⟩
    · obtain ⟨x, hx, rfl⟩ := List.mem_map.mp hr
      split
      · next hin =>
        rw [if_pos hin, (hset x).runId] at hid
        exact absurd hid (hruns _ (hheld _ hin))
      · exact hx
    · obtain ⟨x, hx, rfl⟩ := List.mem_map.mp hr
      refine ⟨x, hx, ?_, False.elim⟩
      split
      · exact hset x
      · exact .refl x
  | insertEvent row =>
    refine { hrefl with events := fun e he => ?_, held_events := fun e he ht hid => ?_ }
    · exact ⟨e, List.mem_append_left _ he, .refl e⟩
    · rcases List.mem_append.mp he with he | he
      · exact ⟨e, he, .refl e⟩
      · rw [List.mem_singleton.mp he] at ht hid
        exact absurd hid (hruns _ (hw.2 ht).1)
  | updateEvents ids set =>
    obtain ⟨_, by_, -, rfl, -⟩ := hw
    have hself : ∀ e : RunEvent,
        e.SameEvent (if e.eventId ∈ ids then { e with processedBy := by_ } else e) := by
      intro e
      split <;> rfl
    refine { hrefl with events := fun e he => ?_, held_events := fun e he ht hid => ?_ }
    · exact ⟨_, List.mem_map.mpr ⟨e, he, rfl⟩, hself e⟩
    · obtain ⟨x, hx, rfl⟩ := List.mem_map.mp he
      exact ⟨x, hx, hself x⟩

/-- No run that has ended is executing again. -/
def NoRevival (t t' : Tables) : Prop :=
  ∀ r ∈ t.runs, ∀ r' ∈ t'.runs, r'.runId = r.runId → r'.status.executing = true →
    r.status.executing = true

theorem Others.calm {calm : Prop} {held : Held} {t t' : Tables} (h : Others False held t t')
    (hcalm : calm → NoRevival t t') : Others calm held t t' :=
  { h with
    locked := fun r' hr' hid => by
      obtain ⟨r, hr, hs, -⟩ := h.locked r' hr' hid
      exact ⟨r, hr, hs, fun hc hex => hcalm hc r hr r' hr' hs.runId hex⟩ }

/-- What a session commits is allowed to happen under another one. -/
theorem Kept.others {τ τ' : Terms} {libs : Libs} {k k' : Kind} {ses o : Session} {t : Tables}
    {seq : Seq} (h : Kept τ libs k ses.writes ses.held ses.loaded t) (hf : ses.Fresh t seq)
    (ho : Kept τ' libs k' o.writes o.held o.loaded t) (ha : ses.Apart o) :
    Others False o.held t (ses.view t) := by
  have hjob : ∀ id, Key.job id ∈ ses.keys → id ∉ o.held.jobs := by
    intro id hid hin
    have hmem := (ho.keys.mem_iff).mp (Tables.mem_keys_job.mpr (ho.held_jobs id hin))
    rcases List.mem_append.mp hmem with hmem | hmem
    · exact hf.new _ hid hmem
    · exact ha.keys _ hid hmem
  have hrun : ∀ id, Key.run id ∈ ses.keys → id ∉ o.held.runs := by
    intro id hid hin
    have hmem := (ho.keys.mem_iff).mp (Tables.mem_keys_run.mpr (ho.held_runs id hin))
    rcases List.mem_append.mp hmem with hmem | hmem
    · exact hf.new _ hid hmem
    · exact ha.keys _ hid hmem
  refine h.replays.invariant (P := fun t' => Others False o.held t t') (fun t' w hw ho hv => ?_)
    (.refl t)
  refine ho.trans (hv.others ha.advisory ha.jobs ha.runs (fun id hid => ?_) fun id hid => ?_)
  · exact hjob id (List.mem_filterMap.mpr ⟨w, hw, hid⟩)
  · exact hrun id (List.mem_filterMap.mpr ⟨w, hw, hid⟩)

/-- What a session commits keeps the tables coherent. -/
theorem Kept.coherent {τ : Terms} {libs : Libs} {k : Kind} {ses : Session} {t : Tables} {seq : Seq}
    (h : Kept τ libs k ses.writes ses.held ses.loaded t) (hf : ses.Fresh t seq)
    (hk : Coherent t seq) : Coherent (ses.view t) seq := by
  refine (h.linked hk.linked).coherent ?_ fun key hkey => ?_
  · rw [h.keys.nodup_iff, List.nodup_append]
    refine ⟨hk.keys_nodup, hf.nodup, fun a ha b hb hab => ?_⟩
    exact hf.new b hb (hab ▸ ha)
  · rcases List.mem_append.mp (h.keys.mem_iff.mp hkey) with hkey | hkey
    · exact hk.keys_below key hkey
    · exact hf.below key hkey

end TaskScheduler
