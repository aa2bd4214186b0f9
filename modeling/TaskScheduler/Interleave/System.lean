import TaskScheduler.Interleave.Sessions
import TaskScheduler.Lib.Pointwise

/-! The whole system, statement by statement: in every state that it reaches the committed tables are
coherent, every open session has made valid writes only and will go on to do so, and no two sessions
hold a lock or insert a key together. -/

namespace TaskScheduler

open Lib

variable {τ : Terms} {cfg : Config}

/-! ### An open transaction -/

/-- What holds of an open transaction over the tables `t`: it has kept the terms, and it will. -/
structure Open.Good (τ : Terms) (cfg : Config) (t : Tables) (seq : Seq) (o : Open) : Prop where
  kept : Site.Kept τ cfg.libs o.kind ⟨t, seq, o.ses⟩
  fresh : o.ses.Fresh t seq
  wp : o.prog.wp (amongOthers τ cfg.libs o.kind) (fun _ _ => True)
    (fun won g => g.Kept τ cfg.libs o.kind ∧ o.kind.Ends won g) ⟨t, seq, o.ses⟩

theorem Kind.Ends.env {libs : Libs} {k k' : Kind} {won : Bool} {g g' : Site} (h : k.Ends won g)
    (hτ : τ.Stable) (hk : g.Kept τ libs k') (he : g.Env τ g') : k.Ends won g' := by
  cases k with
  | claim now runId jobId => exact fun hwon => (h hwon).env hτ hk he
  | create now args =>
    unfold Kind.Ends Site.Created
    rw [he.ses]
    exact h
  | _ => trivial

/-- The session does not move while other transactions commit. -/
theorem Open.Good.env {t t' : Tables} {seq seq' : Seq} {o : Open} (h : o.Good τ cfg t seq)
    (hτ : τ.Stable) (he : Site.Env τ ⟨t, seq, o.ses⟩ ⟨t', seq', o.ses⟩) (hf : o.ses.Fresh t' seq') :
    o.Good τ cfg t' seq' := by
  refine ⟨(h.kept.env hτ he).1, hf, ?_⟩
  exact Program.wp_env (fun ha hb => ha.trans hb) (fun _ _ _ _ _ => trivial)
    (fun _ g g' he h => ⟨(h.1.env hτ he).1, h.2.env hτ h.1 he⟩) h.wp he

theorem Session.Fresh.mono {t : Tables} {seq seq' : Seq} {ses : Session} (h : ses.Fresh t seq)
    (hle : seq.le seq') : ses.Fresh t seq' :=
  ⟨h.nodup, fun key hkey => (h.below key hkey).mono hle, h.new, h.saved⟩

theorem Session.Fresh.jobs {t : Tables} {seq : Seq} {ses : Session} (h : ses.Fresh t seq) :
    ∀ row, .insertJob row ∈ ses.writes → ∀ j ∈ t.jobs, j.jobId ≠ row.jobId := by
  intro row hrow j hj hid
  refine h.new (.job row.jobId) (List.mem_filterMap.mpr ⟨_, hrow, rfl⟩) ?_
  exact Tables.mem_keys_job.mpr ⟨j, hj, hid⟩

/-- Nothing has happened but to the sequences. -/
theorem Open.Good.burn {t : Tables} {seq seq' : Seq} {o : Open} (h : o.Good τ cfg t seq)
    (hτ : τ.Stable) (hcoh : Coherent t seq) (hinv : τ.inv t) (hle : seq.le seq') :
    o.Good τ cfg t seq' :=
  h.env hτ ⟨rfl, hle, .refl t, hcoh.burn hle, hinv, h.fresh.jobs⟩ (h.fresh.mono hle)

/-- A session that has just begun. -/
theorem Session.Fresh.init (t : Tables) (seq : Seq) (start : Int) :
    Session.Fresh t seq { start } :=
  ⟨List.nodup_nil, by simp [Session.keys], by simp [Session.keys], by simp⟩

theorem Session.Apart.init (start : Int) (o : Session) : Session.Apart { start } o :=
  ⟨by simp [Session.keys], by simp, by simp, by simp⟩

theorem Site.Kept.init (libs : Libs) (k : Kind) (t : Tables) (seq : Seq) (start : Int) :
    Site.Kept τ libs k ⟨t, seq, { start }⟩ :=
  ⟨⟨trivial, by simp, by simp, by simp⟩, by simp⟩

/-! ### A commit -/

/-- What a transaction has done once it commits `ses` over `t`. -/
structure Commits (τ : Terms) (libs : Libs) (k : Kind) (t : Tables) (seq : Seq) (ses : Session)
    (won : Bool) : Prop where
  kept : Site.Kept τ libs k ⟨t, seq, ses⟩
  fresh : ses.Fresh t seq
  ends : k.Ends won ⟨t, seq, ses⟩

namespace Commits

variable {libs : Libs} {k : Kind} {t : Tables} {seq : Seq} {ses : Session} {won : Bool}

theorem coherent (h : Commits τ libs k t seq ses won) (hcoh : Coherent t seq) :
    Coherent (ses.view t) seq :=
  h.kept.now.coherent h.fresh hcoh

/-- Rows stay, and jobs move along their lifecycle. -/
theorem others (h : Commits τ libs k t seq ses won) : Others False {} t (ses.view t) :=
  have hinit : Site.Kept τ libs k ⟨t, seq, { start := 0 }⟩ := .init libs k t seq 0
  h.kept.now.others h.fresh hinit.now (Session.Apart.init 0 ses).symm

/-- Another session stays good across the commit. -/
theorem good {τ' : Terms} (h : Commits τ' cfg.libs k t seq ses won) (hτ : τ.Stable) {o : Open}
    (ho : o.Good τ cfg t seq) (ha : ses.Apart o.ses) (hcoh : Coherent t seq)
    (hinv : τ.inv (ses.view t)) (hcalm : τ.calm → NoRevival t (ses.view t)) :
    o.Good τ cfg (ses.view t) seq := by
  have hothers := (h.kept.now.others h.fresh ho.kept.now ha).calm hcalm
  have hf : o.ses.Fresh (ses.view t) seq := by
    refine ⟨ho.fresh.nodup, ho.fresh.below, fun key hkey hin => ?_, ho.fresh.saved⟩
    rcases List.mem_append.mp (h.kept.now.keys.mem_iff.mp hin) with hin | hin
    · exact ho.fresh.new key hkey hin
    · exact ha.keys key hin hkey
  exact ho.env hτ ⟨rfl, seq.le_refl, hothers, h.coherent hcoh, hinv, hf.jobs⟩ hf

end Commits

/-! ### A transaction at once -/

/-- Terms that ask nothing of the ends of runs and of the consumer admit every transaction. -/
theorem Terms.admits_plain {τ : Terms} (hfinal : ¬τ.final) (hcont : ∀ t e, τ.cont t e)
    (libs : Libs) (k : Kind) : τ.Admits libs k := by
  have hcontinues : ∀ e, Continues τ libs k e := fun e =>
    ⟨⟨fun _ _ _ _ _ => hcont _ _, fun _ _ _ _ _ _ => hcont _ _⟩, fun _ _ _ => hcont _ _,
      fun _ _ _ _ _ _ => hcont _ _, fun _ _ _ _ _ _ _ _ _ _ _ _ => hcont _ _⟩
  cases k with
  | create now args => trivial
  | cancel now userId jobId => exact fun h => absurd h hfinal
  | poll now batchSize => exact hcontinues
  | deliver now event => exact hcontinues
  | _ => exact hfinal

theorem Terms.free_stable : Terms.free.Stable := fun _ _ _ _ _ h => h

theorem Terms.free_admits (libs : Libs) (k : Kind) : Terms.free.Admits libs k :=
  Terms.admits_plain id (fun _ _ => trivial) libs k

/-- A transaction that runs at once beside open sessions keeps to the free terms, and what each of
its statements keeps holds at its end. -/
theorem atomic_commits {k : Kind} {pick : Nat → Bool} {others : List Session} {t : Tables}
    {seq seq' : Seq} {start : Int} {res : Except Err Bool} {ses : Session} (I : Session → Prop)
    (hinit : I { start })
    (hkeep : ∀ s q ss r q' ss', Site.Kept .free cfg.libs k ⟨t, q, ss⟩ → ss.Fresh t q → I ss →
      Stmt.exec pick others t s (q, ss) = some (r, q', ss') → I ss')
    (hcoh : Coherent t seq) (hready : k.Ready t)
    (hothers : ∀ o ∈ others, ∀ key ∈ o.keys, key.below seq)
    (hrun : (k.prog cfg).run (Stmt.exec pick others t) (seq, { start }) = some (res, seq', ses)) :
    seq.le seq' ∧ (∀ o ∈ others, ses.Apart o) ∧ I ses ∧
      ∀ won, res = .ok won → Commits .free cfg.libs k t seq' ses won := by
  let rel : Seq × Session → Site → Prop := fun d g =>
    g = ⟨t, d.1, d.2⟩ ∧ seq.le d.1 ∧ Site.Kept .free cfg.libs k ⟨t, d.1, d.2⟩ ∧ d.2.Fresh t d.1 ∧
      (∀ o ∈ others, d.2.Apart o) ∧ I d.2
  have hsim : ∀ s d g r d', rel d g → (amongOthers .free cfg.libs k).may s g →
      Stmt.exec pick others t s d = some (r, d') →
      ∃ g', (amongOthers .free cfg.libs k).next s g r g' ∧ rel d' g' := by
    rintro s ⟨q, ss⟩ g r ⟨q', ss'⟩ ⟨rfl, hle, hk, hf, ha, hI⟩ hmay hexec
    have hmoves := exec_moves hexec
    have hstay : Site.Env .free ⟨t, q, ss⟩ ⟨t, q, ss⟩ :=
      ⟨rfl, q.le_refl, .refl t, hcoh.burn hle, trivial, hf.jobs⟩
    have hnext : (siteAccount .free).next s ⟨t, q, ss⟩ r ⟨t, q', ss'⟩ :=
      ⟨trivial, rfl, pick, others, hexec⟩
    refine ⟨⟨t, q', ss'⟩, ⟨⟨t, q, ss⟩, hstay, hnext⟩, rfl, Seq.le_trans hle hmoves.seq_le,
      (hmay _ hstay).2 r _ hnext, ?_, fun o ho => ?_, hkeep s q ss r q' ss' hk hf hI hexec⟩
    · exact hmoves.fresh hf fun key hkey => (hcoh.keys_below key hkey).mono hle
    · exact hmoves.apart hf ho (fun key hkey => (hothers o ho key hkey).mono hle) (ha o ho)
  have hwp : (k.prog cfg).wp (amongOthers .free cfg.libs k) (fun _ _ => True)
      (fun won g => g.Kept .free cfg.libs k ∧ k.Ends won g) ⟨t, seq, { start }⟩ :=
    Kind.keeps Terms.free_stable (Terms.free_admits _ k) (.init cfg.libs k t seq start) rfl rfl
      hready
  obtain ⟨g, ⟨rfl, hle, -, hf, ha, hI⟩, hends⟩ := Program.run_of_wp rel hsim (k.prog cfg)
    (seq, { start }) _ ⟨rfl, seq.le_refl, .init cfg.libs k t seq start, .init t seq start,
      fun o _ => .init start o, hinit⟩ hwp hrun
  refine ⟨hle, ha, hI, fun won hwon => ?_⟩
  rw [hwon] at hends
  exact ⟨hends.1, hf, hends.2⟩

/-! ### The jobs that a session inserts -/

/-- The jobs that the writes insert. -/
def insertedJobs (ws : List Write) : List Job :=
  ws.filterMap fun
    | .insertJob row => some row
    | _ => none

/-- The jobs that a session has inserted. -/
def Session.inserted (ses : Session) : List Job := insertedJobs ses.writes

theorem Session.mem_inserted {ses : Session} {row : Job} :
    row ∈ ses.inserted ↔ Write.insertJob row ∈ ses.writes := by
  unfold Session.inserted insertedJobs
  rw [List.mem_filterMap]
  constructor
  · rintro ⟨w, hw, hrow⟩
    cases w with
    | insertJob r =>
      cases hrow
      exact hw
    | _ => cases hrow
  · intro h
    exact ⟨_, h, rfl⟩

/-- The jobs after valid writes are later versions of those before and of those inserted. -/
theorem replays_jobs {τ : Terms} {libs : Libs} {k : Kind} {held : Held} {loaded : List Job}
    {ws : List Write} {t : Tables} (h : Replays Write.apply (Valid τ libs k held loaded) ws t) :
    List.Forall₂ Job.Since (t.jobs ++ insertedJobs ws) (Write.applyAll ws t).jobs := by
  have hrefl : ∀ l : List Job, List.Forall₂ Job.Since l l := fun l =>
    List.forall₂_same.mpr fun j _ => .inl rfl
  induction ws generalizing t with
  | nil =>
    rw [insertedJobs, List.filterMap_nil, List.append_nil]
    exact hrefl t.jobs
  | cons w ws ih =>
    have hws := ih h.2
    have hw := h.1
    cases w with
    | insertJob row =>
      have happ : t.jobs ++ insertedJobs (.insertJob row :: ws) =
          (Write.apply (.insertJob row) t).jobs ++ insertedJobs ws := by
        simp [Write.apply, insertedJobs]
      rw [happ]
      exact hws
    | updateJobs ids set =>
      obtain ⟨-, -, ⟨now, hset⟩, hrows⟩ := hw
      have hmap : List.Forall₂ Job.Since t.jobs
          (t.jobs.map fun j => if j.jobId ∈ ids then set j else j) := by
        refine List.forall₂_map_right_iff.mpr (List.forall₂_same.mpr fun j hj => ?_)
        split
        · next hin =>
          refine .inr ⟨(hrows j hj hin).1, now, ?_⟩
          rcases hset with rfl | rfl
          · exact .inl rfl
          · exact .inr rfl
        · exact .inl rfl
      exact pointwise_trans (R := Job.Since) (fun h h' => since_aging.trans h h')
        (List.rel_append hmap (hrefl (insertedJobs ws))) hws
    | _ => exact hws

theorem Kept.jobs {τ : Terms} {libs : Libs} {k : Kind} {ses : Session} {t : Tables}
    (h : Kept τ libs k ses.writes ses.held ses.loaded t) :
    List.Forall₂ Job.Since (t.jobs ++ ses.inserted) (ses.view t).jobs :=
  replays_jobs h.replays

/-- Only a creation inserts a job, and only one, of its user. -/
theorem Commits.inserted {libs : Libs} {k : Kind} {t : Tables} {seq : Seq} {ses : Session}
    {won : Bool} (h : Commits τ libs k t seq ses won) : ses.inserted = [] ∨
      ∃ now args row, k = .create now args ∧ ses.inserted = [row] ∧ row.userId = args.userId := by
  cases hk : k.creates with
  | false =>
    refine .inl (List.eq_nil_iff_forall_not_mem.mpr fun row hrow => ?_)
    obtain ⟨t', hcreates, -⟩ := h.kept.now.replays.mem (Session.mem_inserted.mp hrow)
    rw [hk] at hcreates
    cases hcreates
  | true =>
    cases k with
    | create now args =>
      rcases h.ends with ⟨hnil, -⟩ | ⟨row, rest, hwrites, huser, -, hrest⟩
      · simp only at hnil
        exact .inl (by rw [Session.inserted, hnil]; rfl)
      · refine .inr ⟨now, args, row, rfl, ?_, huser⟩
        simp only at hwrites
        rw [Session.inserted, hwrites]
        have hnil : insertedJobs rest = [] := List.filterMap_eq_nil_iff.mpr fun w hw => by
          rcases hrest w hw with ⟨r, rfl, -⟩ | ⟨e, rfl⟩ <;> rfl
        exact congrArg (row :: ·) hnil
    | _ => cases hk

/-! ### The system -/

/-- The invariant of the system under the terms. -/
structure Sys.Interleaved (τ : Terms) (cfg : Config) (σ : Sys) : Prop where
  coherent : Coherent σ.tables σ.seq
  inv : τ.inv σ.tables
  workers : ∀ w ∈ σ.workers, ∃ r ∈ σ.tables.runs, r.runId = w.1 ∧ r.jobId = w.2
  good : ∀ (i : Nat) (o : Open), σ.sessions[i]? = some (some o) → o.Good τ cfg σ.tables σ.seq
  apart : ∀ (i j : Nat) (a b : Open), i ≠ j → σ.sessions[i]? = some (some a) →
    σ.sessions[j]? = some (some b) → a.ses.Apart b.ses

/-- What the terms ask of a step: of the kind of a transaction that is begun, and of the place where
a statement is issued. -/
def Act.Admitted (τ : Terms) (cfg : Config) (σ : Sys) : Act → Prop
  | .start k _ => τ.Admits cfg.libs k
  | .statement i _ => ∀ k s rest ses, σ.sessions[i]? = some (some ⟨k, .op s rest, ses⟩) →
    τ.cond s ⟨σ.tables, σ.seq, ses⟩
  | _ => True

namespace Sys

variable {σ σ' : Sys}

theorem mem_others {i : Nat} {ses : Session} (h : ses ∈ σ.others i) :
    ∃ (j : Nat) (o : Open), j ≠ i ∧ σ.sessions[j]? = some (some o) ∧ o.ses = ses := by
  obtain ⟨_ | o, ho, hses⟩ := List.mem_filterMap.mp h
  · cases hses
  · obtain ⟨j, hj, hget⟩ := List.mem_eraseIdx_iff_getElem?.mp ho
    exact ⟨j, o, hj, hget, Option.some.inj hses⟩

theorem mem_open {ses : Session} (h : ses ∈ σ.open_) :
    ∃ (j : Nat) (o : Open), σ.sessions[j]? = some (some o) ∧ o.ses = ses := by
  obtain ⟨_ | o, ho, hses⟩ := List.mem_filterMap.mp h
  · cases hses
  · obtain ⟨j, hget⟩ := List.mem_iff_getElem?.mp ho
    exact ⟨j, o, hget, Option.some.inj hses⟩

theorem open_mem {i : Nat} {o : Open} (h : σ.sessions[i]? = some (some o)) : o.ses ∈ σ.open_ :=
  List.mem_filterMap.mpr ⟨some o, List.mem_of_getElem? h, rfl⟩

theorem others_mem {i j : Nat} {o : Open} (h : σ.sessions[j]? = some (some o)) (hij : j ≠ i) :
    o.ses ∈ σ.others i :=
  List.mem_filterMap.mpr ⟨some o, List.mem_eraseIdx_iff_getElem?.mpr ⟨j, hij, h⟩, rfl⟩

theorem get_set {l : List (Option Open)} {i j : Nat} {x : Option Open} {o : Open}
    (h : (l.set i x)[j]? = some (some o)) :
    (j = i ∧ x = some o) ∨ (j ≠ i ∧ l[j]? = some (some o)) := by
  rw [List.getElem?_set] at h
  split at h
  · next hij =>
    split at h
    · exact .inl ⟨hij.symm, Option.some.inj h⟩
    · cases h
  · next hij => exact .inr ⟨Ne.symm hij, h⟩

theorem get_append {l : List (Option Open)} {j : Nat} {x o : Open}
    (h : (l ++ [some x])[j]? = some (some o)) :
    l[j]? = some (some o) ∨ (j = l.length ∧ o = x) := by
  rw [List.getElem?_append] at h
  split at h
  · exact .inl h
  · next hlen =>
    obtain ⟨hlt, heq⟩ := List.getElem?_eq_some_iff.mp h
    simp only [List.length_singleton] at hlt
    simp only [List.getElem_singleton, Option.some.injEq] at heq
    exact .inr ⟨by omega, heq.symm⟩

namespace Interleaved

/-- A transaction that may be issued is ready to run. -/
theorem ready (h : σ.Interleaved τ cfg) {k : Kind} (hk : k.enabled σ = true) : k.Ready σ.tables := by
  cases k with
  | claim now runId jobId =>
    obtain ⟨r, hr, hid⟩ := List.any_eq_true.mp hk
    simp only [Bool.and_eq_true, beq_iff_eq] at hid
    exact ⟨r, hr, hid⟩
  | finish now runId jobId outcome => exact h.workers _ (of_decide_eq_true hk)
  | deliver now event =>
    simp only [Kind.enabled, Bool.and_eq_true, List.any_eq_true, decide_eq_true_eq] at hk
    obtain ⟨hterminal, e, he, heq⟩ := hk
    have hs : e.SameEvent event := by
      rw [← heq]
      rfl
    exact ⟨hterminal, e, he, hs.symm⟩
  | _ => trivial

theorem taken_workers (h : σ.Interleaved τ cfg) (k : Kind) :
    ∀ w ∈ k.taken σ.workers, ∃ r ∈ σ.tables.runs, r.runId = w.1 ∧ r.jobId = w.2 := by
  intro w hw
  refine h.workers w ?_
  cases k with
  | finish now runId jobId outcome => exact List.mem_of_mem_erase hw
  | _ => exact hw

/-- The workers once a transaction has committed. -/
theorem done_workers {τ' : Terms} {libs : Libs} {k : Kind} {t : Tables} {seq : Seq} {ses : Session}
    {won : Bool} {ws : List (Nat × Nat)} (h : Commits τ' libs k t seq ses won)
    (hws : ∀ w ∈ ws, ∃ r ∈ t.runs, r.runId = w.1 ∧ r.jobId = w.2) :
    ∀ w ∈ k.done won ws, ∃ r ∈ (ses.view t).runs, r.runId = w.1 ∧ r.jobId = w.2 := by
  have hstay : ∀ w ∈ ws, ∃ r ∈ (ses.view t).runs, r.runId = w.1 ∧ r.jobId = w.2 := by
    intro w hw
    obtain ⟨r, hr, hid, hjob⟩ := hws w hw
    obtain ⟨r', hr', hs, -⟩ := h.others.runs r hr
    exact ⟨r', hr', hs.runId.trans hid, hs.jobId.trans hjob⟩
  intro w hw
  cases k with
  | claim now runId jobId =>
    simp only [Kind.done] at hw
    split at hw
    · next hwon =>
      rcases List.mem_cons.mp hw with rfl | hw
      · obtain ⟨r, hr, hid, hjob, -⟩ := h.ends hwon
        exact ⟨r, hr.mem, hid, hjob⟩
      · exact hstay w hw
    · exact hstay w hw
  | _ => exact hstay w hw

/-- The sequences move on, and nothing else. -/
theorem burn (h : σ.Interleaved τ cfg) (hτ : τ.Stable) {seq : Seq} (hle : σ.seq.le seq)
    {ws : List (Nat × Nat)} (hws : ∀ w ∈ ws, ∃ r ∈ σ.tables.runs, r.runId = w.1 ∧ r.jobId = w.2) :
    Interleaved τ cfg { σ with seq := seq, workers := ws } :=
  ⟨h.coherent.burn hle, h.inv, hws, fun i o ho => (h.good i o ho).burn hτ h.coherent h.inv hle,
    h.apart⟩

/-- A transaction that commits beside the open sessions. -/
theorem commits {τ' : Terms} (h : σ.Interleaved τ cfg) (hτ : τ.Stable) {k : Kind} {ses : Session}
    {won : Bool} (hc : Commits τ' cfg.libs k σ.tables σ.seq ses won)
    (ha : ∀ (i : Nat) (o : Open), σ.sessions[i]? = some (some o) → ses.Apart o.ses)
    (hinv : τ.inv (ses.view σ.tables)) (hcalm : τ.calm → NoRevival σ.tables (ses.view σ.tables)) :
    Interleaved τ cfg
      { σ with tables := ses.view σ.tables, workers := k.done won σ.workers } :=
  ⟨hc.coherent h.coherent, hinv, done_workers hc h.workers,
    fun i o ho => hc.good hτ (h.good i o ho) (ha i o ho) h.coherent hinv hcalm, h.apart⟩

/-- A session ends. -/
theorem close (h : σ.Interleaved τ cfg) (i : Nat) :
    Interleaved τ cfg { σ with sessions := σ.sessions.set i none } := by
  have hsub : ∀ {j : Nat} {o : Open}, (σ.sessions.set i none)[j]? = some (some o) →
      σ.sessions[j]? = some (some o) := by
    intro j o ho
    rcases get_set ho with ⟨-, hnone⟩ | ⟨-, ho⟩
    · cases hnone
    · exact ho
  exact ⟨h.coherent, h.inv, h.workers, fun j o ho => h.good j o (hsub ho),
    fun j l a b hne ha hb => h.apart j l a b hne (hsub ha) (hsub hb)⟩

/-- A session begins. -/
theorem start (h : σ.Interleaved τ cfg) (hτ : τ.Stable) {k : Kind} (hk : k.enabled σ = true)
    (hadm : τ.Admits cfg.libs k) (at_ : Int) :
    Interleaved τ cfg { σ with
      sessions := σ.sessions ++ [some ⟨k, k.prog cfg, { start := at_ }⟩]
      workers := k.taken σ.workers } := by
  have hnew : Open.Good τ cfg σ.tables σ.seq ⟨k, k.prog cfg, { start := at_ }⟩ :=
    ⟨.init cfg.libs k σ.tables σ.seq at_, .init σ.tables σ.seq at_,
      Kind.keeps hτ hadm (.init cfg.libs k σ.tables σ.seq at_) rfl rfl (h.ready hk)⟩
  refine ⟨h.coherent, h.inv, h.taken_workers k, fun j o ho => ?_, fun j l a b hne ha hb => ?_⟩
  · rcases get_append ho with ho | ⟨-, rfl⟩
    · exact h.good j o ho
    · exact hnew
  · rcases get_append ha with ha | ⟨hj, rfl⟩
    · rcases get_append hb with hb | ⟨-, rfl⟩
      · exact h.apart j l a b hne ha hb
      · exact (Session.Apart.init at_ a.ses).symm
    · rcases get_append hb with hb | ⟨hl, rfl⟩
      · exact .init at_ b.ses
      · exact absurd (hj.trans hl.symm) hne

/-- A session issues its next statement. -/
theorem statement (h : σ.Interleaved τ cfg) (hτ : τ.Stable) {i : Nat} {k : Kind} {s : Stmt}
    {rest : Reply s → Txn Bool} {ses ses' : Session}
    (hi : σ.sessions[i]? = some (some ⟨k, .op s rest, ses⟩))
    (hcond : τ.cond s ⟨σ.tables, σ.seq, ses⟩) {pick : Nat → Bool} {r : Reply s} {seq' : Seq}
    (hexec : s.exec pick (σ.others i) σ.tables (σ.seq, ses) = some (r, seq', ses')) :
    Interleaved τ cfg
      { σ with seq := seq', sessions := σ.sessions.set i (some ⟨k, rest r, ses'⟩) } := by
  have hmoves := exec_moves hexec
  have hgood := h.good i _ hi
  have hle := hmoves.seq_le
  have hapart : ∀ {j : Nat} {o : Open}, j ≠ i → σ.sessions[j]? = some (some o) → ses'.Apart o.ses := by
    intro j o hji ho
    exact hmoves.apart hgood.fresh (others_mem ho hji) (h.good j o ho).fresh.below
      (h.apart i j _ o (Ne.symm hji) hi ho)
  have hstep := Program.wp_among_step hgood.wp
    ⟨rfl, σ.seq.le_refl, .refl σ.tables, h.coherent, h.inv, hgood.fresh.jobs⟩
    ⟨σ.tables, seq', ses'⟩ ⟨hcond, rfl, pick, σ.others i, hexec⟩
  refine ⟨h.coherent.burn hle, h.inv, h.workers, fun j o ho => ?_, fun j l a b hne ha hb => ?_⟩
  · rcases get_set ho with ⟨-, heq⟩ | ⟨-, ho⟩
    · cases heq
      exact ⟨hstep.1, hmoves.fresh hgood.fresh h.coherent.keys_below, hstep.2⟩
    · exact (h.good j o ho).burn hτ h.coherent h.inv hle
  · rcases get_set ha with ⟨rfl, heq⟩ | ⟨hj, ha'⟩
    · rcases get_set hb with ⟨rfl, -⟩ | ⟨hl, hb'⟩
      · exact absurd rfl hne
      · cases heq
        exact hapart hl hb'
    · rcases get_set hb with ⟨rfl, heq⟩ | ⟨hl, hb'⟩
      · cases heq
        exact (hapart hj ha').symm
      · exact h.apart j l a b hne ha' hb'

/-- What an open transaction has done when it has come to its end. -/
theorem ends (h : σ.Interleaved τ cfg) {i : Nat} {k : Kind} {won : Bool} {ses : Session}
    (hi : σ.sessions[i]? = some (some ⟨k, .ret won, ses⟩)) :
    Commits τ cfg.libs k σ.tables σ.seq ses won :=
  ⟨(h.good i _ hi).kept, (h.good i _ hi).fresh, ((h.good i _ hi).wp).2⟩

/-- What a transaction at once has done. -/
theorem atomic (h : σ.Interleaved τ cfg) {k : Kind} (hk : k.enabled σ = true) {pick : Nat → Bool}
    {start : Int} (I : Session → Prop) (hinit : I { start })
    (hkeep : ∀ s q ss r q' ss', Site.Kept .free cfg.libs k ⟨σ.tables, q, ss⟩ →
      ss.Fresh σ.tables q → I ss →
      Stmt.exec pick σ.open_ σ.tables s (q, ss) = some (r, q', ss') → I ss')
    {res : Except Err Bool} {seq' : Seq} {ses : Session}
    (hrun : (k.prog cfg).run (Stmt.exec pick σ.open_ σ.tables) (σ.seq, { start }) =
      some (res, seq', ses)) :
    σ.seq.le seq' ∧ (∀ o ∈ σ.open_, ses.Apart o) ∧ I ses ∧
      ∀ won, res = .ok won → Commits .free cfg.libs k σ.tables seq' ses won := by
  refine atomic_commits I hinit hkeep h.coherent (h.ready hk) (fun o ho key hkey => ?_) hrun
  obtain ⟨j, p, hp, rfl⟩ := mem_open ho
  exact (h.good j p hp).fresh.below key hkey

/-- One step of the system under the terms. -/
theorem step (h : σ.Interleaved τ cfg) (hτ : τ.Stable) {a : Act} (hadm : a.Admitted τ cfg σ)
    (hstep : σ.step cfg a = some σ') (hinv : τ.inv σ'.tables)
    (hcalm : τ.calm → NoRevival σ.tables σ'.tables) : σ'.Interleaved τ cfg := by
  cases a with
  | atomic k start pick =>
    simp only [Sys.step] at hstep
    split at hstep
    · next hk =>
      split at hstep
      · cases hstep
      · next won seq ses hrun =>
        cases hstep
        obtain ⟨hle, hapart, -, hc⟩ := h.atomic hk (fun _ => True) trivial
          (fun _ _ _ _ _ _ _ _ _ _ => trivial) hrun
        have hburn := h.burn hτ hle (h.taken_workers k)
        exact hburn.commits hτ (hc won rfl) (fun i o ho => hapart _ (open_mem ho)) hinv hcalm
      · next e seq ses hrun =>
        cases hstep
        have hle := (h.atomic hk (fun _ => True) trivial
          (fun _ _ _ _ _ _ _ _ _ _ => trivial) hrun).1
        exact h.burn hτ hle (h.taken_workers k)
    · cases hstep
  | start k at_ =>
    simp only [Sys.step] at hstep
    split at hstep
    · next hk =>
      cases hstep
      exact h.start hτ hk hadm at_
    · cases hstep
  | statement i pick =>
    simp only [Sys.step] at hstep
    split at hstep
    · next k s rest ses hi =>
      split at hstep
      · cases hstep
      · next r seq ses' hexec =>
        cases hstep
        exact h.statement hτ hi (hadm k s rest ses hi) hexec
    · cases hstep
  | commit i =>
    simp only [Sys.step] at hstep
    split at hstep
    · next k won ses hi =>
      cases hstep
      have hc := h.ends hi
      refine (h.close i).commits hτ hc (fun j o ho => ?_) hinv hcalm
      rcases get_set ho with ⟨-, hnone⟩ | ⟨hj, ho⟩
      · cases hnone
      · exact h.apart i j _ o (Ne.symm hj) hi ho
    · cases hstep
  | abort i =>
    simp only [Sys.step] at hstep
    split at hstep
    · cases hstep
      exact h.close i
    · cases hstep
  | crash runId jobId =>
    cases hstep
    exact { h with workers := fun w hw => h.workers w (List.mem_of_mem_erase hw) }

/-- The empty system. -/
theorem init (hinv : τ.inv {}) : Interleaved τ cfg {} :=
  ⟨⟨by simp, ⟨by simp, by simp⟩, by simp, by simp, by simp, by simp, by simp, by simp, by simp⟩,
    hinv, by simp, by simp, by simp⟩

end Interleaved

/-- An open session was open before, for the same transaction, or the step has begun it. -/
theorem step_kind {a : Act} (hstep : σ.step cfg a = some σ') {i : Nat} {o : Open}
    (ho : σ'.sessions[i]? = some (some o)) :
    (∃ o', σ.sessions[i]? = some (some o') ∧ o'.kind = o.kind) ∨ ∃ at_, a = .start o.kind at_ := by
  cases a with
  | atomic k start pick =>
    simp only [Sys.step] at hstep
    split at hstep
    · split at hstep
      · cases hstep
      · cases hstep
        exact .inl ⟨o, ho, rfl⟩
      · cases hstep
        exact .inl ⟨o, ho, rfl⟩
    · cases hstep
  | start k at_ =>
    simp only [Sys.step] at hstep
    split at hstep
    · cases hstep
      rcases get_append ho with ho | ⟨-, rfl⟩
      · exact .inl ⟨o, ho, rfl⟩
      · exact .inr ⟨at_, rfl⟩
    · cases hstep
  | statement j pick =>
    simp only [Sys.step] at hstep
    split at hstep
    · next hj =>
      split at hstep
      · cases hstep
      · cases hstep
        rcases get_set ho with ⟨rfl, heq⟩ | ⟨-, ho⟩
        · cases heq
          exact .inl ⟨_, hj, rfl⟩
        · exact .inl ⟨o, ho, rfl⟩
    · cases hstep
  | commit j | abort j =>
    simp only [Sys.step] at hstep
    split at hstep
    · cases hstep
      rcases get_set ho with ⟨-, hnone⟩ | ⟨-, ho⟩
      · cases hnone
      · exact .inl ⟨o, ho, rfl⟩
    · cases hstep
  | crash runId jobId =>
    cases hstep
    exact .inl ⟨o, ho, rfl⟩

/-- The transaction that a step commits, if it goes through. -/
def commits (σ : Sys) : Act → Option Kind
  | .atomic k _ _ => some k
  | .commit i => σ.sessions[i]?.join.map (·.kind)
  | _ => none

/-- What a step does to the tables: nothing, unless it commits a transaction. -/
theorem step_tables (h : σ.Interleaved .free cfg) {a : Act} (hstep : σ.step cfg a = some σ') :
    σ'.tables = σ.tables ∨ ∃ k seq ses won, Commits .free cfg.libs k σ.tables seq ses won ∧
      σ.commits a = some k ∧ σ'.tables = ses.view σ.tables := by
  cases a with
  | atomic k start pick =>
    simp only [Sys.step] at hstep
    split at hstep
    · next hk =>
      split at hstep
      · cases hstep
      · next won seq ses hrun =>
        cases hstep
        exact .inr ⟨k, seq, ses, won, (h.atomic hk (fun _ => True) trivial
          (fun _ _ _ _ _ _ _ _ _ _ => trivial) hrun).2.2.2 won rfl, rfl, rfl⟩
      · cases hstep
        exact .inl rfl
    · cases hstep
  | start k at_ =>
    simp only [Sys.step] at hstep
    split at hstep
    · cases hstep
      exact .inl rfl
    · cases hstep
  | statement i pick =>
    simp only [Sys.step] at hstep
    split at hstep
    · split at hstep
      · cases hstep
      · cases hstep
        exact .inl rfl
    · cases hstep
  | commit i =>
    simp only [Sys.step] at hstep
    split at hstep
    · next k won ses hi =>
      cases hstep
      exact .inr ⟨k, σ.seq, ses, won, h.ends hi, by simp [commits, hi], rfl⟩
    · cases hstep
  | abort i =>
    simp only [Sys.step] at hstep
    split at hstep
    · cases hstep
      exact .inl rfl
    · cases hstep
  | crash runId jobId =>
    cases hstep
    exact .inl rfl

/-- What a step does to the jobs: they move along their lifecycle, and a creation adds one of its
user. -/
theorem step_jobs (h : σ.Interleaved .free cfg) {a : Act} (hstep : σ.step cfg a = some σ') :
    ∃ new : List Job, List.Forall₂ Job.Since (σ.tables.jobs ++ new) σ'.tables.jobs ∧
      (new = [] ∨ ∃ now args row, σ.commits a = some (.create now args) ∧ new = [row] ∧
        row.userId = args.userId) := by
  rcases step_tables h hstep with heq | ⟨k, seq, ses, won, hc, hk, heq⟩
  · refine ⟨[], ?_, .inl rfl⟩
    rw [heq, List.append_nil]
    exact List.forall₂_same.mpr fun j _ => .inl rfl
  · refine ⟨ses.inserted, heq ▸ hc.kept.now.jobs, ?_⟩
    rcases hc.inserted with hnil | ⟨now, args, row, rfl, hrow⟩
    · exact .inl hnil
    · exact .inr ⟨now, args, row, hk, hrow⟩

/-- The rows before a step are there after it, in later versions. -/
theorem step_forward (h : σ.Interleaved .free cfg) {a : Act} (hstep : σ.step cfg a = some σ') :
    (∀ j ∈ σ.tables.jobs, ∃ j' ∈ σ'.tables.jobs, j.Since j') ∧
      ∀ r ∈ σ.tables.runs, ∃ r' ∈ σ'.tables.runs, r.SameRun r' := by
  rcases step_tables h hstep with heq | ⟨k, seq, ses, won, hc, -, heq⟩
  · rw [heq]
    exact ⟨fun j hj => ⟨j, hj, .inl rfl⟩, fun r hr => ⟨r, hr, .refl r⟩⟩
  · rw [heq]
    refine ⟨fun j hj => ?_, fun r hr => ?_⟩
    · obtain ⟨j', hj', hs, -⟩ := hc.others.jobs j hj
      exact ⟨j', hj', hs⟩
    · obtain ⟨r', hr', hs, -⟩ := hc.others.runs r hr
      exact ⟨r', hr', hs⟩

/-- The invariant of every run, whatever the steps are. -/
theorem Reach.interleaved {ok : Sys → Act → Prop} (h : Reach cfg ok σ) :
    σ.Interleaved .free cfg := by
  refine Reach.invariant (.init trivial) (fun σ a σ' hσ _ hstep => ?_) h
  refine hσ.step Terms.free_stable ?_ hstep trivial False.elim
  cases a with
  | start k at_ => exact Terms.free_admits _ k
  | statement i pick => exact fun _ _ _ _ _ => trivial
  | _ => trivial

end Sys

end TaskScheduler
