import Mathlib.Data.List.Pairwise
import TaskScheduler.Interleave.System

/-! Idempotency keys: at most one job of a user carries a key, under every interleaving of the
transactions, and when a repeated `create_job` returns that job. -/

namespace TaskScheduler

open Lib

/-! ### Clashes -/

theorem Job.clashes_iff {a b : Job} : a.clashes b = true ↔
    a.userId = b.userId ∧ ∃ key, a.idempotencyKey = some key ∧ b.idempotencyKey = some key := by
  simp only [Job.clashes, Bool.and_eq_true, beq_iff_eq, Option.isSome_iff_exists]
  constructor
  · rintro ⟨⟨huser, key, hkey⟩, heq⟩
    exact ⟨huser, key, hkey, heq ▸ hkey⟩
  · rintro ⟨huser, key, ha, hb⟩
    exact ⟨⟨huser, key, ha⟩, ha.trans hb.symm⟩

theorem Job.clashes_symm {a b : Job} (h : a.clashes b = true) : b.clashes a = true := by
  obtain ⟨huser, key, ha, hb⟩ := Job.clashes_iff.mp h
  exact Job.clashes_iff.mpr ⟨huser.symm, key, hb, ha⟩

theorem Job.Since.idempotencyKey {c r : Job} (h : c.Since r) :
    r.idempotencyKey = c.idempotencyKey := by
  rw [since_aging.sameDef h]

/-- Whether two jobs clash does not depend on where they are in their lifecycle. -/
theorem Job.Since.clashes {a a' b b' : Job} (ha : a.Since a') (hb : b.Since b')
    (h : a'.clashes b' = true) : a.clashes b = true := by
  obtain ⟨huser, key, hka, hkb⟩ := Job.clashes_iff.mp h
  rw [ha.userId, hb.userId] at huser
  rw [ha.idempotencyKey] at hka
  rw [hb.idempotencyKey] at hkb
  exact Job.clashes_iff.mpr ⟨huser, key, hka, hkb⟩

/-- A statement inserts a job only where no job clashes with it, in the view of the session or
among the inserts of the others. -/
theorem exec_inserted {pick : Nat → Bool} {others : List Session} {t : Tables} {s : Stmt}
    {seq seq' : Seq} {ses ses' : Session} {r : Reply s} (hf : ses.Fresh t seq)
    (h : s.exec pick others t (seq, ses) = some (r, seq', ses')) :
    List.Sublist ses'.inserted ses.inserted ∨
      ∃ new : Job, ses'.inserted = ses.inserted ++ [new] ∧
        (∀ j ∈ (ses.view t).jobs, new.clashes j = false) ∧
        ∀ o ∈ others, ∀ row ∈ o.inserted, new.clashes row = false := by
  have hsame : ses'.writes = ses.writes → List.Sublist ses'.inserted ses.inserted := by
    intro heq
    rw [Session.inserted, heq]
    exact List.Sublist.refl _
  have hone : ∀ w : Write, ses'.writes = ses.writes ++ [w] → (∀ row, w ≠ .insertJob row) →
      List.Sublist ses'.inserted ses.inserted := by
    intro w heq hne
    rw [Session.inserted, heq, insertedJobs, List.filterMap_append]
    cases w with
    | insertJob row => exact absurd rfl (hne row)
    | _ => simp [Session.inserted, insertedJobs]
  cases s with
  | insertJob row =>
    simp only [Stmt.exec] at h
    split at h
    · cases h
    · next hothers =>
      split at h
      · cases h
        exact .inl (hsame rfl)
      · next hclash =>
        cases h
        simp only [Bool.or_eq_true, not_or, Bool.not_eq_true, List.any_eq_false] at hclash hothers
        refine .inr ⟨storedJob seq ses.start row, ?_, hclash.1, fun o ho row' hrow' => ?_⟩
        · simp [Session.inserted, insertedJobs, Session.write, storedJob]
        · have := hothers o ho
          simp only [Session.insertsJobLike, List.any_eq_false] at this
          simpa [storedJob] using this _ (Session.mem_inserted.mp hrow')
  | insertRun row =>
    simp only [Stmt.exec] at h
    split at h
    · cases h
    · split at h
      · cases h
        exact .inl (hsame rfl)
      · cases h
        exact .inl (hone _ rfl (by simp))
  | updateJobs p set | updateRuns p set | updateEvents p set =>
    simp only [Stmt.exec] at h
    split at h
    · cases h
    · cases h
      exact .inl (hone _ rfl (by simp))
  | insertEvent row =>
    cases h
    exact .inl (hone _ rfl (by simp))
  | advisoryLock key =>
    simp only [Stmt.exec] at h
    split at h
    · cases h
    · cases h
      exact .inl (hsame rfl)
  | rollbackTo =>
    simp only [Stmt.exec] at h
    split at h
    · cases h
      exact .inl (hsame rfl)
    · next ws held hsaved =>
      cases h
      exact .inl ((hf.saved ws held hsaved).1.sublist.filterMap _)
  | _ =>
    cases h
    exact .inl (hsame rfl)

/-! ### No two jobs with one key -/

/-- The jobs that a session has inserted clash with no other job. -/
structure Session.Unclashed (t : Tables) (others : List Session) (ses : Session) : Prop where
  own : ses.inserted.Pairwise fun a b => a.clashes b = false
  committed : ∀ row ∈ ses.inserted, ∀ j ∈ t.jobs, row.clashes j = false
  others : ∀ row ∈ ses.inserted, ∀ o ∈ others, ∀ row' ∈ o.inserted, row.clashes row' = false

theorem Session.Unclashed.init (t : Tables) (others : List Session) (start : Int) :
    Session.Unclashed t others { start } :=
  ⟨by simp [Session.inserted, insertedJobs], by simp [Session.inserted, insertedJobs],
    by simp [Session.inserted, insertedJobs]⟩

/-- A job of the view is a later version of each job that it clashes with. -/
theorem Job.Since.unclashed {a b b' : Job} (hb : b.Since b') (h : a.clashes b' = false) :
    a.clashes b = false := by
  rw [← Bool.not_eq_true] at h ⊢
  intro hab
  obtain ⟨huser, key, hka, hkb⟩ := Job.clashes_iff.mp hab
  exact h (Job.clashes_iff.mpr ⟨huser.trans hb.userId.symm, key, hka, hb.idempotencyKey.trans hkb⟩)

theorem Job.unclashed_symm {a b : Job} (h : a.clashes b = false) : b.clashes a = false := by
  rw [← Bool.not_eq_true] at h ⊢
  exact fun hba => h (Job.clashes_symm hba)

theorem exec_unclashed {τ : Terms} {libs : Libs} {k : Kind} {pick : Nat → Bool}
    {others : List Session} {t : Tables} {s : Stmt} {seq seq' : Seq} {ses ses' : Session}
    {r : Reply s} (hk : Site.Kept τ libs k ⟨t, seq, ses⟩) (hf : ses.Fresh t seq)
    (hu : ses.Unclashed t others) (h : s.exec pick others t (seq, ses) = some (r, seq', ses')) :
    ses'.Unclashed t others := by
  rcases exec_inserted hf h with hsub | ⟨new, happ, hview, hothers⟩
  · exact ⟨hu.own.sublist hsub, fun row hrow => hu.committed row (hsub.subset hrow),
      fun row hrow => hu.others row (hsub.subset hrow)⟩
  · have hall : ∀ row ∈ t.jobs ++ ses.inserted, new.clashes row = false := by
      intro row hrow
      obtain ⟨j, hj, hs⟩ := pointwise_right hk.now.jobs hrow
      exact hs.unclashed (hview j hj)
    rw [List.forall_mem_append] at hall
    refine ⟨?_, ?_, ?_⟩
    · rw [happ, List.pairwise_append]
      refine ⟨hu.own, by simp, fun a ha b hb => ?_⟩
      rw [List.mem_singleton.mp hb]
      exact Job.unclashed_symm (hall.2 a ha)
    · rw [happ, List.forall_mem_append]
      exact ⟨hu.committed, by simpa using hall.1⟩
    · rw [happ, List.forall_mem_append]
      exact ⟨hu.others, by simpa using hothers⟩

namespace Sys

/-- No two jobs clash, be they committed or inserted by open sessions. -/
structure Unclashed (σ : Sys) : Prop where
  committed : σ.tables.jobs.Pairwise fun a b => a.clashes b = false
  session : ∀ (i : Nat) (o : Open), σ.sessions[i]? = some (some o) → o.ses.Unclashed σ.tables []
  apart : ∀ (i j : Nat) (a b : Open), i ≠ j → σ.sessions[i]? = some (some a) →
    σ.sessions[j]? = some (some b) →
    ∀ row ∈ a.ses.inserted, ∀ row' ∈ b.ses.inserted, row.clashes row' = false

namespace Unclashed

variable {cfg : Config} {σ σ' : Sys}

theorem among (h : σ.Unclashed) {i : Nat} {o : Open} (hi : σ.sessions[i]? = some (some o)) :
    o.ses.Unclashed σ.tables (σ.others i) := by
  obtain ⟨hown, hcommitted, -⟩ := h.session i o hi
  refine ⟨hown, hcommitted, fun row hrow ses hses => ?_⟩
  obtain ⟨j, p, hj, hp, rfl⟩ := mem_others hses
  exact h.apart i j o p (Ne.symm hj) hi hp row hrow

/-- The jobs after a commit. -/
theorem commits {τ : Terms} {k : Kind} {seq : Seq} {ses : Session} {won : Bool} (h : σ.Unclashed)
    (hc : Commits τ cfg.libs k σ.tables seq ses won) (hu : ses.Unclashed σ.tables []) :
    (ses.view σ.tables).jobs.Pairwise fun a b => a.clashes b = false := by
  refine pointwise_pairwise (R := Job.Since) hc.kept.now.jobs ?_ ?_
  · rw [List.pairwise_append]
    exact ⟨h.committed, hu.own, fun a ha b hb => Job.unclashed_symm (hu.committed b hb a ha)⟩
  · intro a a' b b' ha hb hab
    rw [← Bool.not_eq_true] at hab ⊢
    exact fun h => hab (ha.clashes hb h)

/-- What another session sees of a commit. -/
theorem carried {τ : Terms} {k : Kind} {seq : Seq} {ses o : Session} {won : Bool}
    (hc : Commits τ cfg.libs k σ.tables seq ses won) (ho : o.Unclashed σ.tables [])
    (ha : ∀ row ∈ o.inserted, ∀ row' ∈ ses.inserted, row.clashes row' = false) :
    o.Unclashed (ses.view σ.tables) [] := by
  refine ⟨ho.own, fun row hrow j hj => ?_, by simp⟩
  obtain ⟨i, hi, hs⟩ := pointwise_left hc.kept.now.jobs hj
  have hrow' : row.clashes i = false := by
    rcases List.mem_append.mp hi with hi | hi
    · exact ho.committed row hrow i hi
    · exact ha row hrow i hi
  rw [← Bool.not_eq_true] at hrow' ⊢
  exact fun h => hrow' (Job.Since.clashes (.inl rfl) hs h)

theorem close (h : σ.Unclashed) (i : Nat) :
    Unclashed { σ with sessions := σ.sessions.set i none } := by
  have hsub : ∀ {j : Nat} {o : Open}, (σ.sessions.set i none)[j]? = some (some o) →
      σ.sessions[j]? = some (some o) := by
    intro j o ho
    rcases get_set ho with ⟨-, hnone⟩ | ⟨-, ho⟩
    · cases hnone
    · exact ho
  exact ⟨h.committed, fun j o ho => h.session j o (hsub ho),
    fun j l a b hne ha hb => h.apart j l a b hne (hsub ha) (hsub hb)⟩

/-- A statement of an open session. -/
theorem statement (h : σ.Unclashed) {τ : Terms} (hσ : σ.Interleaved τ cfg) {i : Nat} {k : Kind}
    {s : Stmt} {rest : Reply s → Txn Bool} {ses ses' : Session}
    (hi : σ.sessions[i]? = some (some ⟨k, .op s rest, ses⟩)) {pick : Nat → Bool} {r : Reply s}
    {seq' : Seq} (hexec : s.exec pick (σ.others i) σ.tables (σ.seq, ses) = some (r, seq', ses')) :
    Unclashed { σ with seq := seq', sessions := σ.sessions.set i (some ⟨k, rest r, ses'⟩) } := by
  have hgood := hσ.good i _ hi
  have hnew := exec_unclashed hgood.kept hgood.fresh (h.among hi) hexec
  refine ⟨h.committed, fun j o ho => ?_, fun j l a b hne ha hb => ?_⟩
  · rcases get_set ho with ⟨-, heq⟩ | ⟨-, ho⟩
    · cases heq
      exact ⟨hnew.own, hnew.committed, by simp⟩
    · exact h.session j o ho
  · rcases get_set ha with ⟨rfl, heq⟩ | ⟨hj, ha'⟩
    · rcases get_set hb with ⟨rfl, -⟩ | ⟨hl, hb'⟩
      · exact absurd rfl hne
      · cases heq
        exact fun row hrow => hnew.others row hrow _ (others_mem hb' hl)
    · rcases get_set hb with ⟨rfl, heq⟩ | ⟨hl, hb'⟩
      · cases heq
        exact fun row hrow row' hrow' =>
          Job.unclashed_symm (hnew.others row' hrow' _ (others_mem ha' hj) row hrow)
      · exact h.apart j l a b hne ha' hb'

theorem step (h : σ.Unclashed) (hσ : σ.Interleaved .free cfg) {a : Act}
    (hstep : σ.step cfg a = some σ') : σ'.Unclashed := by
  cases a with
  | atomic k start pick =>
    simp only [Sys.step] at hstep
    split at hstep
    · next hk =>
      split at hstep
      · cases hstep
      · next won seq ses hrun =>
        cases hstep
        obtain ⟨-, -, hu, hc⟩ := hσ.atomic hk (Session.Unclashed σ.tables σ.open_)
          (.init σ.tables σ.open_ start)
          (fun _ _ _ _ _ _ hk hf hu hexec => exec_unclashed hk hf hu hexec) hrun
        have hu' : ses.Unclashed σ.tables [] := ⟨hu.own, hu.committed, by simp⟩
        refine ⟨h.commits (hc won rfl) hu', fun i o ho => ?_, h.apart⟩
        refine carried (hc won rfl) (h.session i o ho) fun row hrow row' hrow' => ?_
        exact Job.unclashed_symm (hu.others row' hrow' _ (open_mem ho) row hrow)
      · cases hstep
        exact ⟨h.committed, h.session, h.apart⟩
    · cases hstep
  | start k at_ =>
    simp only [Sys.step] at hstep
    split at hstep
    · cases hstep
      refine ⟨h.committed, fun j o ho => ?_, fun j l a b hne ha hb => ?_⟩
      · rcases get_append ho with ho | ⟨-, rfl⟩
        · exact h.session j o ho
        · exact .init σ.tables [] at_
      · rcases get_append ha with ha | ⟨-, rfl⟩
        · rcases get_append hb with hb | ⟨-, rfl⟩
          · exact h.apart j l a b hne ha hb
          · simp [Session.inserted, insertedJobs]
        · simp [Session.inserted, insertedJobs]
    · cases hstep
  | statement i pick =>
    simp only [Sys.step] at hstep
    split at hstep
    · next k s rest ses hi =>
      split at hstep
      · cases hstep
      · next r seq ses' hexec =>
        cases hstep
        exact h.statement hσ hi hexec
    · cases hstep
  | commit i =>
    simp only [Sys.step] at hstep
    split at hstep
    · next k won ses hi =>
      cases hstep
      have hc := hσ.ends hi
      refine ⟨h.commits hc (h.session i _ hi), fun j o ho => ?_, (h.close i).apart⟩
      rcases get_set ho with ⟨-, hnone⟩ | ⟨hj, ho⟩
      · cases hnone
      · exact carried hc (h.session j o ho) (h.apart j i o _ hj ho hi)
    · cases hstep
  | abort i =>
    simp only [Sys.step] at hstep
    split at hstep
    · cases hstep
      exact h.close i
    · cases hstep
  | crash runId jobId =>
    cases hstep
    exact ⟨h.committed, h.session, h.apart⟩

end Unclashed

variable {cfg : Config} {ok : Sys → Act → Prop} {σ : Sys}

theorem Reach.unclashed (h : Reach cfg ok σ) : σ.Unclashed := by
  induction h with
  | init => exact ⟨by simp, by simp, by simp⟩
  | step hreach hok hstep ih => exact ih.step hreach.interleaved hstep

/-- Two jobs of a user with one key are one job. -/
theorem Reach.job_of_key (h : Reach cfg ok σ) {a b : Job} (ha : a ∈ σ.tables.jobs)
    (hb : b ∈ σ.tables.jobs) (hab : a.clashes b = true) : a = b := by
  have : Std.Symm fun a b : Job => a.clashes b = false := ⟨fun _ _ h => Job.unclashed_symm h⟩
  by_contra hne
  rw [h.unclashed.committed.forall ha hb hne] at hab
  cases hab

end Sys

/-! ### Repeated calls -/

/-- Whether the clock still lets the call through: the instant of a one-shot job is to come, and the
schedule of a recurring one has a further occurrence. -/
def CreateArgs.timelyAs (libs : Libs) (now : Int) (args : CreateArgs) : ScheduleType → Bool
  | .oneShot =>
    (args.scheduledAt.bind fun text => libs.fromIsoFormat text (timezoneOrUtc args.timezone)).any
      fun at_ => decide (now < at_)
  | .recurring =>
    (nextAfter libs (args.cronExpr.getD "")
      (resolveTimezone libs args.timezone args.tzHeader args.tzEnv) now).isSome
  | .immediate => true

def CreateArgs.timely (libs : Libs) (now : Int) (args : CreateArgs) : Bool :=
  (ScheduleType.parse args.scheduleType).all (args.timelyAs libs now)

theorem planSchedule_timely {libs : Libs} {now now' : Int} {args : CreateArgs}
    {scheduleType : ScheduleType} {status : Option TriggerStatus} {plan : CreatePlan}
    (h : planSchedule libs now args scheduleType status = .ok plan) :
    (∃ plan', planSchedule libs now' args scheduleType status = .ok plan') ↔
      args.timelyAs libs now' scheduleType = true := by
  cases scheduleType with
  | immediate => exact ⟨fun _ => rfl, fun _ => ⟨_, rfl⟩⟩
  | oneShot =>
    simp only [planSchedule, CreateArgs.timelyAs] at h ⊢
    split at h
    · cases h
    · next hzone =>
      rw [if_neg hzone]
      unfold parseScheduledAt at h ⊢
      cases hat : args.scheduledAt with
      | none => simp [hat] at h
      | some text =>
        simp only [hat, Option.bind_some] at h ⊢
        cases hiso : libs.fromIsoFormat text (timezoneOrUtc args.timezone) with
        | none => simp [hiso] at h
        | some at_ =>
          simp only [hiso] at h
          have hyears : ¬(!inUtcYears at_) = true := by
            intro hyears
            rw [if_pos hyears] at h
            cases h
          simp only [Option.any_some, decide_eq_true_eq, if_neg hyears]
          by_cases hlate : at_ ≤ now'
          · simp only [if_pos hlate]
            refine ⟨?_, fun hlt => absurd hlt (by omega)⟩
            rintro ⟨_, hplan⟩
            cases hplan
          · simp only [if_neg hlate]
            exact ⟨fun _ => by omega, fun _ => ⟨_, rfl⟩⟩
  | recurring =>
    simp only [planSchedule, CreateArgs.timelyAs] at h ⊢
    split at h
    · cases h
    · next hexpr =>
      split at h
      · cases h
      · split at h
        · cases h
        · next hzone =>
          rw [if_neg hexpr, if_neg hzone]
          cases nextAfter libs (args.cronExpr.getD "")
              (resolveTimezone libs args.timezone args.tzHeader args.tzEnv) now' with
          | none =>
            constructor
            · rintro ⟨_, hplan⟩
              cases hplan
            · intro hsome
              cases hsome
          | some runAt => exact ⟨fun _ => rfl, fun _ => ⟨_, rfl⟩⟩

/-- The checks of `create_job` depend on the clock in one way only. -/
theorem planCreate_timely {libs : Libs} {now now' : Int} {args : CreateArgs} {plan : CreatePlan}
    (h : planCreate libs now args = .ok plan) :
    (∃ plan', planCreate libs now' args = .ok plan') ↔ args.timely libs now' = true := by
  unfold planCreate at h ⊢
  unfold CreateArgs.timely
  cases hparse : ScheduleType.parse args.scheduleType with
  | none => simp [hparse] at h
  | some scheduleType =>
    simp only [hparse] at h ⊢
    split at h
    · cases h
    · split at h
      · cases h
      · next hoperator =>
        split at h
        · cases h
        · split at h
          · cases h
          · rw [if_neg hoperator]
            exact planSchedule_timely h

/-- A creation that commits leaves a job of its user with its key. -/
theorem Commits.keyed {cfg : Config} {now : Int} {args : CreateArgs} {t : Tables} {seq : Seq} {ses : Session}
    {won : Bool} (h : Commits .free cfg.libs (.create now args) t seq ses won) :
    ∃ j ∈ (ses.view t).jobs, j.userId = args.userId ∧ j.idempotencyKey = args.idempotencyKey := by
  rcases h.ends with ⟨-, c, hc, huser, hkey⟩ | ⟨row, rest, hwrites, huser, hkey, -⟩
  · obtain ⟨j, hj, hs⟩ := h.kept.now.entities c hc
    exact ⟨j, hj, hs.userId.trans huser, hs.idempotencyKey.trans hkey⟩
  · have hrow : row ∈ ses.inserted := by
      rw [Session.mem_inserted, hwrites]
      exact List.mem_cons_self
    obtain ⟨j, hj, hs⟩ := pointwise_right h.kept.now.jobs (List.mem_append_right _ hrow)
    exact ⟨j, hj, hs.userId.trans huser, hs.idempotencyKey.trans hkey⟩

/-- A configuration whose clock strings are read by one entry of `fromisoformat`. -/
def Config.iso : Config where
  libs :=
    { Config.minutely.libs with
      fromIsoFormat := fun text _ =>
        if text = "1970-01-01T00:01:00+00:00" then some (60 * second) else none }
  registry := actionRegistry
  depth := 1000

namespace Sys

/-- Every step is allowed. -/
def any : Sys → Act → Prop := fun _ _ => True

/-- The statements of one more call beside the system, which takes any steps between them.  A
statement that waits for a lock may not be issued. -/
def beside (cfg : Config) : Account Stmt Reply (Sys × Session) where
  may s g := ∀ σ pick, Steps cfg any g.1 σ →
    (s.exec pick σ.open_ σ.tables (σ.seq, g.2)).isSome = true
  next s g r g' := ∃ σ pick seq, Steps cfg any g.1 σ ∧
    s.exec pick σ.open_ σ.tables (σ.seq, g.2) = some (r, seq, g'.2) ∧ g'.1 = { σ with seq := seq }

/-- A call of `create_job` at `now` that starts in `σ` or later returns the job `jobId`: it does not
raise, waits for no one, and writes nothing, and the system is where its own steps have led it. -/
def Returns (cfg : Config) (σ : Sys) (now : Int) (args : CreateArgs) (jobId : Nat) : Prop :=
  ∀ σ' start, Steps cfg any σ σ' →
    (createJob cfg.libs now args).wp (beside cfg) (fun _ _ => False)
      (fun id g => id = jobId ∧ g.2.writes = [] ∧ Steps cfg any σ' g.1) (σ', { start })

/-- The step commits a call of `create_job` with these arguments. -/
def Calls (cfg : Config) (σ : Sys) (args : CreateArgs) : Act → Prop
  | .commit i => ∃ now won ses, σ.sessions[i]? = some (some ⟨.create now args, .ret won, ses⟩)
  | .atomic (.create now args') start pick => args' = args ∧ ∃ won seq ses,
    ((Kind.create now args).prog cfg).run (Stmt.exec pick σ.open_ σ.tables) (σ.seq, { start }) =
      some (.ok won, seq, ses)
  | _ => False

variable {cfg : Config} {σ σ' : Sys}

/-- A call whose checks fail raises at once. -/
theorem prog_create_raise {now : Int} {args : CreateArgs} {e : Err}
    (h : planCreate cfg.libs now args = .error e) :
    (Kind.create now args).prog cfg = .raise e := by
  simp [Kind.prog, createJob, h, Txn.quiet, Txn.raise]

/-- An open call whose checks have failed is about to raise. -/
theorem Reach.planned {ok : Sys → Act → Prop} (h : Reach cfg ok σ) {i : Nat} {now : Int}
    {args : CreateArgs} {prog : Txn Bool} {ses : Session} {e : Err}
    (hi : σ.sessions[i]? = some (some ⟨.create now args, prog, ses⟩))
    (he : planCreate cfg.libs now args = .error e) : prog = .raise e := by
  induction h generalizing i prog ses with
  | init => simp at hi
  | @step σ σ' a _ _ hstep ih =>
    cases a with
    | atomic k start pick =>
      simp only [Sys.step] at hstep
      split at hstep
      · split at hstep
        · cases hstep
        · cases hstep
          exact ih hi
        · cases hstep
          exact ih hi
      · cases hstep
    | start k at_ =>
      simp only [Sys.step] at hstep
      split at hstep
      · cases hstep
        rcases get_append hi with hi | ⟨-, heq⟩
        · exact ih hi
        · cases heq
          exact prog_create_raise he
      · cases hstep
    | statement j pick =>
      simp only [Sys.step] at hstep
      split at hstep
      · next k s rest ses' hj =>
        split at hstep
        · cases hstep
        · cases hstep
          rcases get_set hi with ⟨-, heq⟩ | ⟨-, hi⟩
          · cases heq
            cases ih hj
          · exact ih hi
      · cases hstep
    | commit j =>
      simp only [Sys.step] at hstep
      split at hstep
      · cases hstep
        rcases get_set hi with ⟨-, heq⟩ | ⟨-, hi⟩
        · cases heq
        · exact ih hi
      · cases hstep
    | abort j =>
      simp only [Sys.step] at hstep
      split at hstep
      · cases hstep
        rcases get_set hi with ⟨-, heq⟩ | ⟨-, hi⟩
        · cases heq
        · exact ih hi
      · cases hstep
    | crash runId jobId =>
      cases hstep
      exact ih hi

theorem Reach.steps {ok : Sys → Act → Prop} (h : Reach cfg ok σ) (hsteps : Steps cfg ok σ σ') :
    Reach cfg ok σ' := by
  induction hsteps with
  | refl => exact h
  | step _ hok hstep ih => exact ih.step hok hstep

theorem Steps.jobs (h : Reach cfg any σ) (hsteps : Steps cfg any σ σ') :
    ∀ j ∈ σ.tables.jobs, ∃ j' ∈ σ'.tables.jobs, j.Since j' := by
  induction hsteps with
  | refl => exact fun j hj => ⟨j, hj, .inl rfl⟩
  | step hsteps _ hstep ih =>
    intro j hj
    obtain ⟨j₁, hj₁, hs₁⟩ := ih j hj
    obtain ⟨new, hjobs, -⟩ := step_jobs (h.steps hsteps).interleaved hstep
    obtain ⟨j₂, hj₂, hs₂⟩ := pointwise_right hjobs (List.mem_append_left _ hj₁)
    exact ⟨j₂, hj₂, since_aging.trans hs₁ hs₂⟩

/-- What a committed call leaves: its checks went through, and there is a job with its key. -/
theorem Calls.done {args : CreateArgs} {a : Act} (hreach : Reach cfg any σ)
    (hcall : Calls cfg σ args a) (hstep : σ.step cfg a = some σ') :
    (∃ now plan, planCreate cfg.libs now args = .ok plan) ∧
      ∃ j ∈ σ'.tables.jobs, j.userId = args.userId ∧ j.idempotencyKey = args.idempotencyKey := by
  have hσ := hreach.interleaved
  cases a with
  | commit i =>
    obtain ⟨now, won, ses, hi⟩ := hcall
    simp only [Sys.step, hi, Option.some.injEq] at hstep
    subst hstep
    refine ⟨⟨now, ?_⟩, (hσ.ends hi).keyed⟩
    cases hplan : planCreate cfg.libs now args with
    | ok plan => exact ⟨plan, rfl⟩
    | error e => cases hreach.planned hi hplan
  | atomic k start pick =>
    cases k with
    | create now args' =>
      obtain ⟨rfl, won, seq, ses, hrun⟩ := hcall
      have henabled : (Kind.create now args').enabled σ = true := rfl
      simp only [Sys.step, henabled, if_true, hrun, Option.some.injEq] at hstep
      subst hstep
      have hc := (hσ.atomic henabled (fun _ => True) trivial
        (fun _ _ _ _ _ _ _ _ _ _ => trivial) hrun).2.2.2 won rfl
      refine ⟨⟨now, ?_⟩, hc.keyed⟩
      cases hplan : planCreate cfg.libs now args' with
      | ok plan => exact ⟨plan, rfl⟩
      | error e =>
        rw [prog_create_raise hplan] at hrun
        cases hrun
    | _ => cases hcall
  | _ => cases hcall

/-- Where a job has the key, a call whose checks go through returns that job. -/
theorem returns_of_plan (hreach : Reach cfg any σ) {now : Int} {args : CreateArgs} {key : String}
    (hkey : args.idempotencyKey = some key) {plan : CreatePlan}
    (hplan : planCreate cfg.libs now args = .ok plan) {j : Job} (hj : j ∈ σ.tables.jobs)
    (huser : j.userId = args.userId) (hjkey : j.idempotencyKey = some key) :
    Returns cfg σ now args j.jobId := by
  intro σ' start hsteps
  simp only [createJob, hplan, existingJob, hkey, Program.wp_bind]
  refine ⟨fun _ _ _ => rfl, ?_⟩
  rintro rows ⟨τ, ses⟩ hnext
  change List Job at rows
  suffices hrows : rows.head?.map (·.jobId) = some j.jobId ∧ ses.writes = [] ∧
      Steps cfg any σ' τ by
    obtain ⟨hhead, hw, hsteps₁⟩ := hrows
    cases rows with
    | nil => cases hhead
    | cons job rows =>
      change job.jobId = j.jobId ∧ ses.writes = [] ∧ Steps cfg any σ' τ
      exact ⟨by simpa using hhead, hw, hsteps₁⟩
  obtain ⟨σ₁, pick, seq, hsteps₁, hexec, rfl⟩ := hnext
  cases hexec
  have hreach' := hreach.steps hsteps
  have hreach₁ := hreach'.steps hsteps₁
  obtain ⟨j', hj', hs⟩ := Steps.jobs hreach hsteps j hj
  obtain ⟨j₁, hj₁, hs₁⟩ := Steps.jobs hreach' hsteps₁ j' hj'
  have hs₁ := since_aging.trans hs hs₁
  have hmem : j₁ ∈ σ₁.tables.jobs.filter fun j =>
      j.idempotencyKey == some key && j.userId == args.userId := by
    refine List.mem_filter.mpr ⟨hj₁, ?_⟩
    simp [hs₁.idempotencyKey, hs₁.userId, hjkey, huser]
  -- the rows that match are this one, and the entity of a row is the row
  refine ⟨?_, rfl, hsteps₁⟩
  change ((σ₁.tables.jobs.filter fun j =>
      j.idempotencyKey == some key && j.userId == args.userId).map
        (Session.entity { start })).head?.map (·.jobId) = some j.jobId
  cases hfilter : σ₁.tables.jobs.filter fun j =>
      j.idempotencyKey == some key && j.userId == args.userId with
  | nil =>
    rw [hfilter] at hmem
    cases hmem
  | cons x xs =>
    have hx : x ∈ σ₁.tables.jobs.filter fun j =>
        j.idempotencyKey == some key && j.userId == args.userId := by
      rw [hfilter]
      exact List.mem_cons_self
    obtain ⟨hx, hdef⟩ := List.mem_filter.mp hx
    simp only [Bool.and_eq_true, beq_iff_eq] at hdef
    have : x = j₁ := by
      refine hreach₁.job_of_key hx hj₁ (Job.clashes_iff.mpr ⟨?_, key, hdef.1, ?_⟩)
      · rw [hdef.2, hs₁.userId, huser]
      · rw [hs₁.idempotencyKey, hjkey]
    simp [Session.entity, this, hs₁.jobId]

/-- In every state at most one job of a user carries a key, and once a call has committed, the
identical calls return its job exactly as long as the clock lets them through. -/
theorem replay_iff_timely (hreach : Reach cfg any σ) {args : CreateArgs} {key : String}
    (hkey : args.idempotencyKey = some key) :
    (∀ a ∈ σ.tables.jobs, ∀ b ∈ σ.tables.jobs, a.userId = args.userId → b.userId = args.userId →
      a.idempotencyKey = some key → b.idempotencyKey = some key → a = b) ∧
    ∀ a σ', Calls cfg σ args a → σ.step cfg a = some σ' →
      ∃ j ∈ σ'.tables.jobs, j.userId = args.userId ∧ j.idempotencyKey = some key ∧
        ∀ now, Returns cfg σ' now args j.jobId ↔ args.timely cfg.libs now = true := by
  refine ⟨fun a ha b hb hua hub hka hkb => ?_, fun a σ' hcall hstep => ?_⟩
  · exact hreach.job_of_key ha hb (Job.clashes_iff.mpr ⟨hua.trans hub.symm, key, hka, hkb⟩)
  · obtain ⟨⟨now₀, plan₀, hplan₀⟩, j, hj, huser, hjkey⟩ := Calls.done hreach hcall hstep
    rw [hkey] at hjkey
    refine ⟨j, hj, huser, hjkey, fun now => ?_⟩
    rw [← planCreate_timely hplan₀]
    constructor
    · intro hreturns
      cases hplan : planCreate cfg.libs now args with
      | ok plan => exact ⟨plan, rfl⟩
      | error e =>
        have := hreturns σ' 0 .refl
        simp only [createJob, hplan] at this
        exact this.elim
    · rintro ⟨plan, hplan⟩
      exact returns_of_plan (hreach.step trivial hstep) hkey hplan hj huser hjkey

/-- A one-shot `echo` job for one minute past the epoch, with a key. -/
def onceArgs : CreateArgs :=
  { CreateArgs.echo none none none with
    scheduleType := "one-shot"
    idempotencyKey := some "key-abc"
    scheduledAt := some "1970-01-01T00:01:00+00:00" }

/-- The call for that job at the epoch. -/
def onceCall : Act := .at 0 (.create 0 onceArgs)

theorem onceCall_calls : Calls .iso {} onceArgs onceCall ∧
    ∃ σ, ({} : Sys).step .iso onceCall = some σ := by
  have hrun : (((Kind.create 0 onceArgs).prog .iso).run (Stmt.exec (fun _ => true) [] {})
      ({}, { start := 0 })).any (fun r => r.1.toOption.isSome) = true := by decide +kernel
  have hstep : (({} : Sys).step .iso onceCall).isSome = true := by decide +kernel
  refine ⟨⟨rfl, ?_⟩, Option.isSome_iff_exists.mp hstep⟩
  obtain ⟨⟨res, seq, ses⟩, hres, hok⟩ := (Option.any_eq_true _ _).mp hrun
  cases res with
  | ok won => exact ⟨won, seq, ses, hres⟩
  | error e => cases hok

/-- The call has committed, and its repetition a minute later raises. -/
theorem replay_raises : ∃ σ, Reach .iso any {} ∧ Calls .iso {} onceArgs onceCall ∧
    ({} : Sys).step .iso onceCall = some σ ∧
    (∀ jobId, ¬Returns .iso σ (60 * second) onceArgs jobId) ∧
    createJob Config.iso.libs (60 * second) onceArgs =
      .raise (.invalidScheduledAt
        "scheduled_at '1970-01-01T00:01:00+00:00' must be in the future") := by
  obtain ⟨hcall, σ, hσ⟩ := onceCall_calls
  refine ⟨σ, .init, hcall, hσ, fun jobId hreturns => ?_, rfl⟩
  exact hreturns σ 0 .refl

/-- Half a minute earlier it returns the job. -/
theorem replay_returns : ∃ σ, ({} : Sys).step .iso onceCall = some σ ∧
    ∃ j ∈ σ.tables.jobs, j.idempotencyKey = some "key-abc" ∧
      Returns .iso σ (30 * second) onceArgs j.jobId := by
  obtain ⟨hcall, σ, hσ⟩ := onceCall_calls
  obtain ⟨j, hj, -, hkey, hreturns⟩ :=
    (@replay_iff_timely .iso {} .init onceArgs _ rfl).2 onceCall σ hcall hσ
  exact ⟨σ, hσ, j, hj, hkey, (hreturns (30 * second)).mpr (by decide)⟩

end Sys

end TaskScheduler
