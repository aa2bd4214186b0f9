import TaskScheduler.Interleave.Chains
import TaskScheduler.Interleave.Follow
import TaskScheduler.Interleave.Replay

/-! The lifecycle of a job under racing calls.  The state of a job leaves `active` once and for all,
and a call of `cancel_job`, whatever commits between its statements, returns exactly where the job
stays cancelled and raises `InvalidStateError` exactly where it stays completed. -/

namespace TaskScheduler

open Lib

/-- The terms of a system whose chains are short. -/
def Terms.chained : Terms :=
  ⟨False, False, Tables.Chains, fun _ _ => True, fun _ _ => True⟩

theorem Terms.chained_stable : Terms.chained.Stable := fun _ _ _ _ _ h => h

theorem Terms.chained_admits (libs : Libs) (k : Kind) : Terms.chained.Admits libs k :=
  Terms.admits_plain id (fun _ _ => trivial) libs k

/-! ### The cascade does not run out of depth -/

/-- The committed chain of job `id` has `n` jobs, in a table of short chains. -/
structure Tables.Link (t : Tables) (n id : Nat) : Prop where
  chained : Chained t.jobs n id
  keys : (t.jobs.map (·.jobId)).Nodup
  chains : t.Chains

theorem Tables.Link.le {t : Tables} {n id : Nat} (h : t.Link n id) : n ≤ maxChainDepth := by
  have hmem : ∃ j ∈ t.jobs, j.jobId = id := by
    cases h.chained with
    | root hj _ => exact ⟨_, hj, rfl⟩
    | link hj _ _ => exact ⟨_, hj, rfl⟩
  obtain ⟨j, hj, hid⟩ := hmem
  obtain ⟨m, hm, hc⟩ := h.chains j hj
  have hrooted := h.chained.rooted h.keys hj hid
  exact hrooted.unique (hc.rooted h.keys hj rfl) ▸ hm

/-- A transaction that creates nothing sees the jobs of the table. -/
theorem Kept.job_committed {τ : Terms} {libs : Libs} {k : Kind} {writes : List Write} {held : Held}
    {loaded : List Job} {t : Tables} (h : Kept τ libs k writes held loaded t)
    (hk : k.creates = false) : ∀ j ∈ (Write.applyAll writes t).jobs,
      ∃ i ∈ t.jobs, i.jobId = j.jobId ∧ i.triggerOnJobId = j.triggerOnJobId := by
  refine h.replays.invariant (P := fun t' => ∀ j ∈ t'.jobs,
    ∃ i ∈ t.jobs, i.jobId = j.jobId ∧ i.triggerOnJobId = j.triggerOnJobId)
    (fun t' w _ hP hw => ?_) fun j hj => ⟨j, hj, rfl, rfl⟩
  cases w with
  | insertJob row => exact absurd (hk ▸ hw.1) Bool.false_ne_true
  | updateJobs ids set =>
    intro j hj
    obtain ⟨x, hx, rfl⟩ := List.mem_map.mp hj
    obtain ⟨i, hi, hid, htrigger⟩ := hP x hx
    refine ⟨i, hi, ?_⟩
    split
    · exact ⟨hid.trans (sameDef_set hw.2.2.1 x).1.symm,
        htrigger.trans (sameDef_set hw.2.2.1 x).2.1.symm⟩
    · exact ⟨hid, htrigger⟩
  | _ => exact hP

section Cascade

variable {libs : Libs} {k : Kind} {n id : Nat} {g g₁ : Site}

theorem Tables.Link.env (h : g.committed.Link n id) (he : g.Env .chained g₁) :
    g₁.committed.Link n id :=
  ⟨h.chained.mono he.others.chain, he.coherent.jobs.nodup, he.inv⟩

/-- A statement of a transaction that relies on a chain. -/
theorem link_stmt {α : Type} {E : Err → Site → Prop} {s : Stmt} {f : Reply s → α}
    {Q : α → Site → Prop} (h : g.committed.Link n id)
    (hQ : ∀ r g', g'.committed.Link n id → Q (f r) g') :
    (Program.op s fun r => .ret (f r) : Txn α).wp (follow .chained libs k) E Q g := by
  refine follow_stmt fun g₁ he _ _ _ r seq ses _ _ => ?_
  have hlink := h.env he
  exact hQ r ⟨g₁.committed, seq, ses⟩ hlink

theorem settleDownstreams_raises {check : Nat → Txn Bool} (hk : k.creates = false)
    (hcheck : ∀ d g, g.committed.Link (n + 1) d →
      (check d).wp (follow .chained libs k) (fun _ _ => False) (fun _ _ => True) g)
    (h : g.committed.Link n id) :
    (settleDownstreams check id).wp (follow .chained libs k) (fun _ _ => False)
      (fun _ _ => True) g := by
  unfold settleDownstreams
  rw [Program.wp_bind]
  refine follow_stmt fun g₁ he hk₁ pick others r seq ses hexec _ => ?_
  cases hexec
  have hlinks : ∀ d ∈ g₁.view.jobs.filter fun j => j.triggerOnJobId == some id,
      g₁.committed.Link (n + 1) d.jobId := by
    intro d hd
    obtain ⟨hd, htrigger⟩ := List.mem_filter.mp hd
    obtain ⟨i, hi, hid, hi'⟩ := hk₁.now.job_committed hk d hd
    have hlink := h.env he
    exact ⟨hid ▸ .link hi (hi'.trans (by simpa using htrigger)) hlink.chained, hlink.keys,
      hlink.chains⟩
  refine Program.wp_forM
    (fun (ds : List Job) (g' : Site) => ∀ d ∈ ds, g'.committed.Link (n + 1) d.jobId)
    (fun d ds g' hds => ?_) (fun _ _ => trivial) _ _ hlinks
  rw [Program.wp_bind]
  -- one check keeps the chains of the downstreams after it
  have hrest : (check d.jobId).wp (follow .chained libs k) (fun _ _ => True)
      (fun _ g' => ∀ x ∈ ds, g'.committed.Link (n + 1) x.jobId) g' :=
    follow_committed (P := fun t => ∀ x ∈ ds, t.Link (n + 1) x.jobId)
      (fun g g₁ he hP x hx => (hP x hx).env he) fun x hx => hds x (List.mem_cons_of_mem _ hx)
  exact Program.wp_imp (Program.wp_both (hcheck d.jobId g' (hds d List.mem_cons_self)) hrest)
    (fun _ _ h => h.1) fun _ _ h => h.2

/-- A settle check goes down one job of the chain with each level of the recursion. -/
theorem settleCheck_raises (hk : k.creates = false) (now : Int) {depth : Nat}
    (hdepth : maxChainDepth < n + depth) (h : g.committed.Link n id) :
    (settleCheck now depth id).wp (follow .chained libs k) (fun _ _ => False)
      (fun _ _ => True) g := by
  induction depth generalizing n id g with
  | zero =>
    have := h.le
    omega
  | succ depth ih =>
    unfold settleCheck
    rw [Program.wp_bind]
    refine link_stmt h fun rows g₁ h₁ => ?_
    split
    · trivial
    · next job _ =>
      split
      · trivial
      · split
        · trivial
        · unfold acquireJobLock
          rw [Program.wp_bind]
          refine link_stmt h₁ fun _ g₂ h₂ => ?_
          unfold hasExecutingRun
          simp only [Program.wp_bind]
          refine link_stmt h₂ fun _ g₃ h₃ => ?_
          simp only [Program.pure_eq, Program.wp_ret]
          split
          · trivial
          · -- the rest after the answer on the trigger parent
            have hrest : ∀ (active : Bool) g₄, g₄.committed.Link n id →
                (if active = true then (.ret false : Txn Bool) else do
                  let settled ← Txn.updateJobs (fun j => j.jobId == id && j.state == .active)
                    (Job.settle now)
                  if settled.isEmpty then
                    return false
                  settleDownstreams (settleCheck now depth) id
                  return true).wp (follow .chained libs k) (fun _ _ => False) (fun _ _ => True)
                  g₄ := by
              intro active g₄ h₄
              split
              · trivial
              · rw [Program.wp_bind]
                refine link_stmt h₄ fun settled g₅ h₅ => ?_
                split
                · trivial
                · rw [Program.wp_bind]
                  exact Program.wp_mono (settleDownstreams_raises hk
                    (fun d g hd => ih (by omega) hd) h₅) fun _ _ _ => trivial
            unfold triggerParentActive
            split
            · exact hrest false g₃ h₃
            · simp only [Program.wp_bind]
              refine link_stmt h₃ fun rows g₄ h₄ => ?_
              exact hrest _ g₄ h₄

/-- What a cancel does after its compare-and-set raises nothing. -/
theorem cancelRuns_raises (hk : k.creates = false) (now : Int) {depth : Nat}
    (hdepth : maxChainDepth ≤ n + depth) (h : g.committed.Link n id) :
    (cancelRuns now depth id).wp (follow .chained libs k) (fun _ _ => False)
      (fun _ _ => True) g := by
  unfold cancelRuns
  simp only [Program.wp_bind]
  refine link_stmt h fun runs g₁ h₁ => ?_
  rw [Program.wp_bind]
  refine Program.wp_forM (fun _ g' => g'.committed.Link n id) (fun run _ g₂ h₂ => ?_)
    (fun g₂ h₂ => ?_) runs g₁ h₁
  · unfold flipRun
    split
    · simp only [Program.wp_bind]
      exact link_stmt h₂ fun _ g₃ h₃ => link_stmt h₃ fun _ _ h₄ => h₄
    · exact h₂
  · exact settleDownstreams_raises hk (fun d g hd => settleCheck_raises hk now (by omega) hd) h₂

end Cascade

/-! ### The call -/

/-- The user's job is in the table in state `s`. -/
def Tables.Has (t : Tables) (userId : String) (jobId : Nat) (s : JobState) : Prop :=
  ∃ j ∈ t.jobs, j.jobId = jobId ∧ j.userId = userId ∧ j.state = s

theorem Job.Since.ended {c r : Job} (h : c.Since r) (hs : c.state ≠ .active) : r = c := by
  rcases h with rfl | ⟨hactive, -⟩
  · rfl
  · exact absurd hactive hs

theorem Others.has {calm : Prop} {held : Held} {t t' : Tables} {userId : String} {jobId : Nat}
    {s : JobState} (ho : Others calm held t t') (hs : s ≠ .active) (h : t.Has userId jobId s) :
    t'.Has userId jobId s := by
  obtain ⟨j, hj, hid, huser, hstate⟩ := h
  obtain ⟨j', hj', hsince, -⟩ := ho.jobs j hj
  rw [hsince.ended (hstate ▸ hs)] at hj'
  exact ⟨j, hj', hid, huser, hstate⟩

/-- A job that has left `active` is never written again. -/
theorem persists_ended {τ : Terms} {libs : Libs} {k : Kind} {userId : String} {jobId : Nat}
    {s : JobState} (hs : s ≠ .active) : Persists τ libs k fun t => t.Has userId jobId s where
  others _ _ _ ho h := ho.has hs h
  write held loaded t w hw := by
    rintro ⟨j, hj, hid, huser, hstate⟩
    refine ⟨j, ?_, hid, huser, hstate⟩
    cases w with
    | insertJob row => exact List.mem_append_left _ hj
    | updateJobs ids set =>
      refine List.mem_map.mpr ⟨j, hj, if_neg fun hin => hs ?_⟩
      exact hstate.symm.trans (hw.2.2.2 j hj hin).1
    | _ => exact hj

/-- Where a call of `cancel_job` raises: the job is not the user's, or it is completed. -/
def CancelRaises (userId : String) (jobId : Nat) : Err → Site → Prop
  | .jobNotFound id, _ => id = jobId
  | .invalidState _, g => g.committed.Has userId jobId .completed
  | _, _ => False

section Call

variable {libs : Libs} {k : Kind} {userId : String} {jobId : Nat} {g g₁ : Site}

/-- The exception of a completed job. -/
theorem terminalStatusHint_raises {α : Type} {Q : α → Site → Prop}
    (h : g.committed.Has userId jobId .completed) :
    (do
      let hint ← terminalStatusHint jobId
      Txn.raise (.invalidState hint) : Txn α).wp (follow .chained libs k)
        (CancelRaises userId jobId) Q g := by
  unfold terminalStatusHint
  simp only [Program.wp_bind]
  exact follow_selectRuns fun g₁ he _ => he.others.has (by decide) h

/-- The rest of the call once its compare-and-set has won. -/
theorem cancelRuns_follows (hk : k.creates = false) (now : Int) {depth n : Nat}
    (hdepth : maxChainDepth ≤ n + depth) (hlink : g.committed.Link n jobId)
    (hkept : g.Kept .chained libs k) (hsaved : g.ses.saved = none)
    (h : g.view.Has userId jobId .cancelled) :
    (cancelRuns now depth jobId).wp (follow .chained libs k) (fun _ _ => False)
      (fun _ g' => g'.view.Has userId jobId .cancelled) g := by
  have hkeeps := follow_among (cancelRuns_keeps Terms.chained_stable (fun hf => absurd hf id) hk now
    depth jobId g hkept hsaved)
  refine Program.wp_imp (Program.wp_both (cancelRuns_raises hk now hdepth hlink) hkeeps)
    (fun _ _ h => h.1) fun _ g' hr => ?_
  exact (persists_ended (by decide)).later Terms.chained_stable hr.2.later hkept hr.2.kept h

/-- The call once it has lost: other transactions have ended the job, and it reads how. -/
theorem lost_follows {set : Job → Job} {s : JobState} (hs : s ≠ .active)
    (job : Job) (hwrites : g.ses.writes = [.updateJobs [] set])
    (h : g.committed.Has userId jobId s) :
    (do
      match (← Txn.selectJobs fun j => j.jobId == jobId).head? with
      | none => Txn.raise .noResultFound
      | some fresh =>
        if fresh.state == .cancelled then return cancelledView job
        else
          let hint ← terminalStatusHint jobId
          Txn.raise (.invalidState hint) : Txn CancelledView).wp (follow .chained libs k)
      (CancelRaises userId jobId) (fun _ g' => g'.view.Has userId jobId .cancelled) g := by
  rw [Program.wp_bind]
  refine follow_selectJobs fun g₁ he _ => ?_
  -- an update that matched no row leaves the session with the committed jobs
  have hjobs : g₁.view.jobs = g₁.committed.jobs := by
    simp [Site.view, Session.view, he.ses, hwrites, Write.apply]
  obtain ⟨j, hj, hid, huser, hstate⟩ := he.others.has hs h
  rw [hjobs]
  cases hrows : (g₁.committed.jobs.filter fun j => j.jobId == jobId).head? with
  | none =>
    rw [List.head?_eq_none_iff, List.filter_eq_nil_iff] at hrows
    exact absurd (by simpa using hid) (hrows j hj)
  | some fresh =>
    obtain ⟨hmem, hfid⟩ := List.mem_filter.mp (List.mem_of_mem_head? hrows)
    have heq : fresh = j :=
      he.coherent.jobs.eq_of_jobId hmem hj ((by simpa using hfid : fresh.jobId = jobId).trans hid.symm)
    rw [heq]
    dsimp only
    split
    · next hc => exact ⟨j, hjobs.symm ▸ hj, hid, huser, by simpa using hc⟩
    · next hc =>
      refine terminalStatusHint_raises ⟨j, hj, hid, huser, ?_⟩
      cases hj : j.state with
      | active => exact absurd (hstate.symm.trans hj) hs
      | completed => rfl
      | cancelled => simp [hj] at hc

/-- The call from its compare-and-set on. -/
theorem cas_follows (hk : k.creates = false) (now : Int) {depth : Nat}
    (hdepth : maxChainDepth ≤ depth) (job : Job) (hwrites : g.ses.writes = [])
    (hsaved : g.ses.saved = none)
    (h : ∃ j ∈ g.committed.jobs, j.jobId = jobId ∧ j.userId = userId) :
    (do
      let cas ← Txn.updateJobs (fun j => j.jobId == jobId && j.state == .active) (Job.cancel now)
      if cas.isEmpty then
        match (← Txn.selectJobs fun j => j.jobId == jobId).head? with
        | none => Txn.raise .noResultFound
        | some fresh =>
          if fresh.state == .cancelled then return cancelledView job
          else
            let hint ← terminalStatusHint jobId
            Txn.raise (.invalidState hint)
      else
        cancelRuns now depth jobId
        return cancelledView job : Txn CancelledView).wp (follow .chained libs k)
      (CancelRaises userId jobId) (fun _ g' => g'.view.Has userId jobId .cancelled) g := by
  rw [Program.wp_bind]
  refine follow_updateJobs fun g₁ ids he hids hk₁ => ?_
  have hw₁ : g₁.ses.writes = [] := (congrArg Session.writes he.ses).trans hwrites
  have hview : g₁.view = g₁.committed := by simp [Site.view, Session.view, hw₁]
  obtain ⟨i, hi, hid, huser⟩ := h
  obtain ⟨j, hj, hsince, -⟩ := he.others.jobs i hi
  replace hid := hsince.jobId.trans hid
  replace huser := hsince.userId.trans huser
  have honly : ∀ x ∈ g₁.committed.jobs, x.jobId = jobId → x = j := fun x hx hxid =>
    he.coherent.jobs.eq_of_jobId hx hj (hxid.trans hid.symm)
  rw [hview] at hids
  by_cases hstate : j.state = .active
  · -- the row is matched, and the session sees it cancelled
    have hin : j.jobId ∈ ids := by
      rw [hids]
      exact List.mem_map_of_mem (List.mem_filter.mpr ⟨hj, by simp [hid, hstate]⟩)
    have hne : ids.isEmpty = false := by
      rw [List.isEmpty_eq_false_iff_exists_mem]
      exact ⟨_, hin⟩
    have hcancelled : (g₁.updateJobs ids (Job.cancel now)).view.Has userId jobId .cancelled := by
      refine ⟨j.cancel now, ?_, hid, huser, rfl⟩
      have happ : (g₁.updateJobs ids (Job.cancel now)).view.jobs =
          g₁.committed.jobs.map fun j => if j.jobId ∈ ids then j.cancel now else j := by
        simp [Site.view, Session.view, Site.updateJobs, Site.on, Session.write, hw₁, Write.apply]
      rw [happ]
      exact List.mem_map.mpr ⟨j, hj, if_pos hin⟩
    obtain ⟨n, hn, hchain⟩ := he.inv j hj
    rw [hne, if_neg Bool.false_ne_true, Program.wp_bind]
    refine Program.wp_imp (cancelRuns_follows hk now (n := n) (by omega)
      ⟨hid ▸ hchain, he.coherent.jobs.nodup, he.inv⟩ hk₁
      ((congrArg Session.saved he.ses).trans hsaved) hcancelled) (fun _ _ h => h.elim)
      fun _ _ h => h
  · -- no row is matched: the keys are unique
    have hnil : ids = [] := by
      rw [hids, List.map_eq_nil_iff, List.filter_eq_nil_iff]
      intro x hx hmatch
      simp only [Bool.and_eq_true, beq_iff_eq] at hmatch
      exact hstate (honly x hx hmatch.1 ▸ hmatch.2)
    subst hnil
    have hw₂ : (g₁.updateJobs [] (Job.cancel now)).ses.writes = [.updateJobs [] (Job.cancel now)] := by
      simp [Site.updateJobs, Site.on, Session.write, hw₁]
    exact lost_follows hstate job hw₂ ⟨j, hj, hid, huser, rfl⟩

/-- A call of `cancel_job` from its first statement on. -/
theorem cancelJob_follows (hk : k.creates = false) (now : Int) {depth : Nat}
    (hdepth : maxChainDepth ≤ depth) (hwrites : g.ses.writes = []) (hloaded : g.ses.loaded = [])
    (hsaved : g.ses.saved = none) :
    (cancelJob now depth userId jobId).wp (follow .chained libs k) (CancelRaises userId jobId)
      (fun _ g' => g'.view.Has userId jobId .cancelled) g := by
  unfold cancelJob
  rw [Program.wp_bind]
  refine follow_loadJobs fun g₁ he hk₁ => ?_
  have hw₁ : g₁.ses.writes = [] := (congrArg Session.writes he.ses).trans hwrites
  have hview : g₁.view = g₁.committed := by simp [Site.view, Session.view, hw₁]
  have hentity : g₁.ses.entity = id := by
    funext row
    simp [Session.entity, he.ses, hloaded]
  rw [hview, hentity, List.map_id]
  cases hrows : (g₁.committed.jobs.filter fun j => j.jobId == jobId && j.userId == userId).head? with
  | none => rfl
  | some job =>
    obtain ⟨hj, howner⟩ := List.mem_filter.mp (List.mem_of_mem_head? hrows)
    simp only [Bool.and_eq_true, beq_iff_eq] at howner
    obtain ⟨hid, huser⟩ := howner
    dsimp only
    split
    · next hstate =>
      have hcommitted : g₁.view.Has userId jobId .cancelled :=
        hview.symm ▸ ⟨job, hj, hid, huser, hstate⟩
      exact hcommitted
    · next hstate => exact terminalStatusHint_raises ⟨job, hj, hid, huser, hstate⟩
    · exact cas_follows hk now hdepth job hw₁ ((congrArg Session.saved he.ses).trans hsaved)
        ⟨job, hj, hid, huser⟩

end Call

/-- What every call of `cancel_job` comes to. -/
def cancelPromise (cfg : Config) (hdepth : maxChainDepth ≤ cfg.depth) :
    Promise .chained cfg where
  raises
    | .cancel _ userId jobId => CancelRaises userId jobId
    | _ => fun _ _ => True
  returns
    | .cancel _ userId jobId => fun _ g => g.view.Has userId jobId .cancelled
    | _ => fun _ _ => True
  raises_env k e g g' _ he h := by
    cases k with
    | cancel now userId jobId =>
      cases e with
      | invalidState hint => exact he.others.has (by decide) h
      | _ => exact h
    | _ => trivial
  returns_env k won g g' hk he h := by
    cases k with
    | cancel now userId jobId => exact (hk.env Terms.chained_stable he).2.has (by decide) h
    | _ => trivial
  begin_ k t seq at_ := by
    cases k with
    | cancel now userId jobId =>
      simp only [Kind.prog, Txn.quiet, Program.wp_bind]
      exact cancelJob_follows rfl now hdepth rfl rfl rfl
    | _ => exact follow_true _ _

namespace Sys

variable {cfg : Config} {σ σ' : Sys}

/-- Every call of `cancel_job` is on its way to what is promised. -/
theorem Reach.cancels (h : Reach cfg any σ) (hdepth : maxChainDepth ≤ cfg.depth) :
    σ.Interleaved .chained cfg ∧ σ.OnTrack (cancelPromise cfg hdepth) := by
  induction h with
  | init => exact ⟨.init (fun j hj => by cases hj), .init _⟩
  | @step σ σ' a hreach hok hstep ih =>
    obtain ⟨hσ, htrack⟩ := ih
    have hadm : a.Admitted .chained cfg σ := by
      cases a with
      | start k at_ => exact Terms.chained_admits _ k
      | statement i pick => exact fun _ _ _ _ _ => trivial
      | _ => trivial
    have hσ' := hσ.step Terms.chained_stable hadm hstep (hreach.step hok hstep).chains False.elim
    exact ⟨hσ', htrack.step hσ hσ' hadm hstep False.elim⟩

/-- The step ends a call of `cancel_job`, with a view or with an exception.  A call at once is a session
whose statements follow each other, see `atomic_steps`. -/
inductive CancelEnds (cfg : Config) (σ : Sys) (userId : String) (jobId : Nat) :
    Option Err → Sys → Prop
  | returns {σ' : Sys} {i : Nat} {now : Int} {won : Bool} {ses : Session}
    (hi : σ.sessions[i]? = some (some ⟨.cancel now userId jobId, .ret won, ses⟩))
    (hstep : σ.step cfg (.commit i) = some σ') : CancelEnds cfg σ userId jobId none σ'
  | raises {σ' : Sys} {i : Nat} {now : Int} {e : Err} {ses : Session}
    (hi : σ.sessions[i]? = some (some ⟨.cancel now userId jobId, .raise e, ses⟩))
    (hstep : σ.step cfg (.abort i) = some σ') : CancelEnds cfg σ userId jobId (some e) σ'

/-- The job is in state `s` in every later committed state. -/
def Lasts (cfg : Config) (σ : Sys) (jobId : Nat) (s : JobState) : Prop :=
  ∀ σ', Steps cfg any σ σ' → (σ'.tables.job? jobId).map (·.state) = some s

theorem Reach.lasts (h : Reach cfg any σ) {userId : String} {jobId : Nat} {s : JobState}
    (hs : s ≠ .active) (hjob : σ.tables.Has userId jobId s) : Lasts cfg σ jobId s := by
  intro σ' hsteps
  obtain ⟨j, hj, hid, -, hstate⟩ := hjob
  obtain ⟨j', hj', hsince⟩ := hsteps.jobs h j hj
  rw [hsince.ended (hstate ▸ hs)] at hj'
  have hfind : σ'.tables.job? jobId = some j := by
    cases hf : σ'.tables.job? jobId with
    | none => exact absurd (by simpa using hid) (List.find?_eq_none.mp hf j hj')
    | some x =>
      have hxid : x.jobId = jobId := by simpa using List.find?_some hf
      rw [(h.steps hsteps).interleaved.coherent.jobs.eq_of_jobId (List.mem_of_find?_eq_some hf) hj'
        (hxid.trans hid.symm)]
  rw [hfind, Option.map_some, hstate]

theorem Lasts.unique {jobId : Nat} {s s' : JobState} (h : Lasts cfg σ jobId s)
    (h' : Lasts cfg σ jobId s') : s = s' :=
  Option.some.inj ((h σ .refl).symm.trans (h' σ .refl))

/-- What a call that has found the job comes to. -/
theorem CancelEnds.outcome (h : Reach cfg any σ) (hdepth : maxChainDepth ≤ cfg.depth)
    {userId : String} {jobId : Nat} {res : Option Err}
    (hends : CancelEnds cfg σ userId jobId res σ') (hfound : res ≠ some (.jobNotFound jobId)) :
    (res = none ∧ Lasts cfg σ' jobId .cancelled) ∨
      (∃ hint, res = some (.invalidState hint)) ∧ Lasts cfg σ' jobId .completed := by
  obtain ⟨-, htrack⟩ := h.cancels hdepth
  cases hends with
  | @returns _ i now won ses hi hstep =>
    have hcancelled : Tables.Has (ses.view σ.tables) userId jobId .cancelled := htrack i _ hi
    have hreach := h.step trivial hstep
    simp only [Sys.step, hi, Option.some.injEq] at hstep
    have hcommitted : σ'.tables.Has userId jobId .cancelled := hstep ▸ hcancelled
    exact .inl ⟨rfl, hreach.lasts (by decide) hcommitted⟩
  | @raises _ i now e ses hi hstep =>
    have hraises : CancelRaises userId jobId e ⟨σ.tables, σ.seq, ses⟩ := htrack i _ hi
    have hreach := h.step trivial hstep
    simp only [Sys.step, hi, Option.some.injEq] at hstep
    cases e with
    | jobNotFound id => exact absurd (by rw [show id = jobId from hraises]) hfound
    | invalidState hint =>
      have hcommitted : σ'.tables.Has userId jobId .completed := hstep ▸ hraises
      exact .inr ⟨⟨hint, rfl⟩, hreach.lasts (by decide) hcommitted⟩
    | _ => exact hraises.elim

end Sys

end TaskScheduler
