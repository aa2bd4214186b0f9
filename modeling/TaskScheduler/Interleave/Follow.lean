import TaskScheduler.Interleave.System

/-! What a transaction comes to among others.  Its writes are known to be valid; this account follows
its statements and says what holds where it returns or raises. -/

namespace TaskScheduler

open Lib

/-- The statements of a transaction among others, between states in which it has kept the terms. -/
def follow (τ : Terms) (libs : Libs) (k : Kind) : Account Stmt Reply Site where
  may _ _ := True
  next s g r g' := ∃ g₁, g.Env τ g₁ ∧ g₁.Kept τ libs k ∧ (siteAccount τ).next s g₁ r g' ∧
    g'.Kept τ libs k

section Rules

variable {τ : Terms} {libs : Libs} {k : Kind} {α : Type} {E : Err → Site → Prop}
  {Q : α → Site → Prop} {t : Txn α} {g g' : Site}

/-- What a transaction will come to does not change while others commit. -/
theorem follow_env (hE : ∀ e g g', g.Kept τ libs k → g.Env τ g' → E e g → E e g')
    (hQ : ∀ a g g', g.Kept τ libs k → g.Env τ g' → Q a g → Q a g')
    (h : t.wp (follow τ libs k) E Q g) (hk : g.Kept τ libs k) (he : g.Env τ g') :
    t.wp (follow τ libs k) E Q g' := by
  cases t with
  | ret a => exact hQ a g g' hk he h
  | raise e => exact hE e g g' hk he h
  | op s rest =>
    refine ⟨trivial, fun r g₂ hnext => h.2 r g₂ ?_⟩
    obtain ⟨g₁, he₁, hk₁, hexec, hk₂⟩ := hnext
    exact ⟨g₁, he.trans he₁, hk₁, hexec, hk₂⟩

/-- The rule of every statement. -/
theorem follow_stmt {s : Stmt} {rest : Reply s → Txn α}
    (hs : ∀ g₁, g.Env τ g₁ → g₁.Kept τ libs k → ∀ pick others r seq ses,
      s.exec pick others g₁.committed (g₁.seq, g₁.ses) = some (r, seq, ses) →
      Site.Kept τ libs k ⟨g₁.committed, seq, ses⟩ →
        (rest r).wp (follow τ libs k) E Q ⟨g₁.committed, seq, ses⟩) :
    (Program.op s rest : Txn α).wp (follow τ libs k) E Q g := by
  refine ⟨trivial, ?_⟩
  rintro r ⟨_, seq, ses⟩ ⟨g₁, he, hk, ⟨-, rfl, pick, others, hexec⟩, hk'⟩
  exact hs g₁ he hk pick others r seq ses hexec hk'

theorem follow_selectJobs {Q : List Job → Site → Prop} {p : Job → Bool}
    (hQ : ∀ g₁, g.Env τ g₁ → g₁.Kept τ libs k → Q (g₁.view.jobs.filter p) g₁) :
    (Txn.selectJobs p).wp (follow τ libs k) E Q g := by
  refine follow_stmt fun g₁ he hk pick others r seq ses hexec _ => ?_
  cases hexec
  exact hQ g₁ he hk

theorem follow_selectRuns {Q : List JobRun → Site → Prop} {p : JobRun → Bool}
    (hQ : ∀ g₁, g.Env τ g₁ → g₁.Kept τ libs k → Q (g₁.view.runs.filter p) g₁) :
    (Txn.selectRuns p).wp (follow τ libs k) E Q g := by
  refine follow_stmt fun g₁ he hk pick others r seq ses hexec _ => ?_
  cases hexec
  exact hQ g₁ he hk

theorem follow_loadJobs {Q : List Job → Site → Prop} {p : Job → Bool}
    (hQ : ∀ g₁, g.Env τ g₁ → (g₁.load p).Kept τ libs k →
      Q ((g₁.view.jobs.filter p).map g₁.ses.entity) (g₁.load p)) :
    (Txn.loadJobs p).wp (follow τ libs k) E Q g := by
  refine follow_stmt fun g₁ he _ pick others r seq ses hexec hk => ?_
  cases hexec
  exact hQ g₁ he hk

theorem follow_updateJobs {Q : List Nat → Site → Prop} {p : Job → Bool} {set : Job → Job}
    (hQ : ∀ g₁ ids, g.Env τ g₁ → ids = (g₁.view.jobs.filter p).map (·.jobId) →
      (g₁.updateJobs ids set).Kept τ libs k → Q ids (g₁.updateJobs ids set)) :
    (Txn.updateJobs p set).wp (follow τ libs k) E Q g := by
  refine follow_stmt fun g₁ he _ pick others r seq ses hexec hk => ?_
  simp only [Stmt.exec] at hexec
  split at hexec
  · cases hexec
  · cases hexec
    exact hQ g₁ _ he rfl hk

/-- Every transaction comes to some end. -/
theorem follow_true (t : Txn α) (g : Site) :
    t.wp (follow τ libs k) (fun _ _ => True) (fun _ _ => True) g := by
  induction t generalizing g with
  | ret a | raise e => trivial
  | op s rest ih => exact ⟨trivial, fun r g' _ => ih r g'⟩

/-- What is known of a transaction among others holds where it is followed. -/
theorem follow_among (h : t.wp (amongOthers τ libs k) E Q g) : t.wp (follow τ libs k) E Q g := by
  refine Program.wp_account (fun _ _ _ => trivial) ?_ h
  rintro s g r g' ⟨g₁, he, -, hexec, -⟩
  exact ⟨g₁, he, hexec⟩

/-- What the other transactions keep of the committed tables holds at the end. -/
theorem follow_committed {P : Tables → Prop}
    (hP : ∀ g g₁ : Site, g.Env τ g₁ → P g.committed → P g₁.committed) (h : P g.committed) :
    t.wp (follow τ libs k) (fun _ _ => True) (fun _ g' => P g'.committed) g := by
  induction t generalizing g with
  | ret a => exact h
  | raise e => trivial
  | op s rest ih =>
    refine follow_stmt fun g₁ he hk pick others r seq ses hexec hk' => ?_
    exact ih r (hP g g₁ he h)

end Rules

/-! ### The system -/

/-- What holds where the transactions of each kind raise and return. -/
structure Promise (τ : Terms) (cfg : Config) where
  raises : Kind → Err → Site → Prop
  returns : Kind → Bool → Site → Prop
  raises_env : ∀ k e g g', g.Kept τ cfg.libs k → g.Env τ g' → raises k e g → raises k e g'
  returns_env : ∀ k won g g', g.Kept τ cfg.libs k → g.Env τ g' → returns k won g →
    returns k won g'
  begin_ : ∀ (k : Kind) (t : Tables) (seq : Seq) (at_ : Int), (k.prog cfg).wp (follow τ cfg.libs k) (raises k) (returns k)
    ⟨t, seq, { start := at_ }⟩

variable {τ : Terms} {cfg : Config}

/-- An open transaction on its way to what is promised. -/
def Open.OnTrack (P : Promise τ cfg) (t : Tables) (seq : Seq) (o : Open) : Prop :=
  o.prog.wp (follow τ cfg.libs o.kind) (P.raises o.kind) (P.returns o.kind) ⟨t, seq, o.ses⟩

namespace Sys

variable {σ σ' : Sys}

/-- A step is something that other transactions may do to a session that stays open. -/
theorem Interleaved.env (h : σ.Interleaved τ cfg) (h' : σ'.Interleaved τ cfg) {a : Act}
    (hstep : σ.step cfg a = some σ') (hcalm : τ.calm → NoRevival σ.tables σ'.tables) {j : Nat}
    {o : Open} (ho : σ.sessions[j]? = some (some o)) (ho' : σ'.sessions[j]? = some (some o)) :
    Site.Env τ ⟨σ.tables, σ.seq, o.ses⟩ ⟨σ'.tables, σ'.seq, o.ses⟩ := by
  have hgood := h.good j o ho
  suffices hmove : σ.seq.le σ'.seq ∧ Others τ.calm o.ses.held σ.tables σ'.tables from
    ⟨rfl, hmove.1, hmove.2, h'.coherent, h'.inv, (h'.good j o ho').fresh.jobs⟩
  cases a with
  | atomic k start pick =>
    simp only [Sys.step] at hstep
    split at hstep
    · next hk =>
      split at hstep
      · cases hstep
      · next won seq ses hrun =>
        cases hstep
        obtain ⟨hle, hapart, -, hc⟩ := h.atomic hk (fun _ => True) trivial
          (fun _ _ _ _ _ _ _ _ _ _ => trivial) hrun
        have hc := hc won rfl
        exact ⟨hle, (hc.kept.now.others hc.fresh hgood.kept.now
          (hapart _ (open_mem ho))).calm hcalm⟩
      · next e seq ses hrun =>
        cases hstep
        exact ⟨(h.atomic hk (fun _ => True) trivial (fun _ _ _ _ _ _ _ _ _ _ => trivial) hrun).1,
          .refl _⟩
    · cases hstep
  | start k at_ =>
    simp only [Sys.step] at hstep
    split at hstep <;> cases hstep
    exact ⟨σ.seq.le_refl, .refl _⟩
  | statement i pick =>
    simp only [Sys.step] at hstep
    split at hstep
    · split at hstep
      · cases hstep
      · next hexec =>
        cases hstep
        exact ⟨(exec_moves hexec).seq_le, .refl _⟩
    · cases hstep
  | commit i =>
    simp only [Sys.step] at hstep
    split at hstep
    · next k won ses hi =>
      cases hstep
      have hji : j ≠ i := by
        rintro rfl
        rcases get_set ho' with ⟨-, hnone⟩ | ⟨hne, -⟩
        · cases hnone
        · exact hne rfl
      have hc := h.ends hi
      exact ⟨σ.seq.le_refl, (hc.kept.now.others hc.fresh hgood.kept.now
        (h.apart i j _ o (Ne.symm hji) hi ho)).calm hcalm⟩
    · cases hstep
  | abort i =>
    simp only [Sys.step] at hstep
    split at hstep <;> cases hstep
    exact ⟨σ.seq.le_refl, .refl _⟩
  | crash runId jobId =>
    cases hstep
    exact ⟨σ.seq.le_refl, .refl _⟩

/-- Every open transaction is on its way. -/
def OnTrack (P : Promise τ cfg) (σ : Sys) : Prop :=
  ∀ (i : Nat) (o : Open), σ.sessions[i]? = some (some o) → o.OnTrack P σ.tables σ.seq

theorem OnTrack.step {P : Promise τ cfg} (h : σ.OnTrack P) (hσ : σ.Interleaved τ cfg)
    (hσ' : σ'.Interleaved τ cfg) {a : Act} (hadm : a.Admitted τ cfg σ)
    (hstep : σ.step cfg a = some σ') (hcalm : τ.calm → NoRevival σ.tables σ'.tables) :
    σ'.OnTrack P := by
  have hstay : ∀ (j : Nat) (o : Open), σ.sessions[j]? = some (some o) →
      σ'.sessions[j]? = some (some o) → o.OnTrack P σ'.tables σ'.seq := fun j o ho ho' =>
    follow_env (P.raises_env o.kind) (P.returns_env o.kind) (h j o ho) (hσ.good j o ho).kept
      (hσ.env hσ' hstep hcalm ho ho')
  intro j o ho'
  by_cases ho : σ.sessions[j]? = some (some o)
  · exact hstay j o ho ho'
  -- the session has just begun, or it has issued a statement
  cases a with
  | start k at_ =>
    simp only [Sys.step] at hstep
    split at hstep <;> cases hstep
    rcases get_append ho' with ho' | ⟨-, rfl⟩
    · exact absurd ho' ho
    · exact P.begin_ k σ.tables σ.seq at_
  | statement i pick =>
    have hgood' := hσ'.good j o ho'
    simp only [Sys.step] at hstep
    split at hstep
    · next k s rest ses hi =>
      split at hstep
      · cases hstep
      · next r seq' ses' hexec =>
        cases hstep
        rcases get_set ho' with ⟨rfl, heq⟩ | ⟨-, ho'⟩
        · cases heq
          have hgood := hσ.good j _ hi
          have hstill : Site.Env τ ⟨σ.tables, σ.seq, ses⟩ ⟨σ.tables, σ.seq, ses⟩ :=
            ⟨rfl, σ.seq.le_refl, .refl _, hσ.coherent, hσ.inv, hgood.fresh.jobs⟩
          exact (h j _ hi).2 r ⟨σ.tables, seq', ses'⟩ ⟨_, hstill, hgood.kept,
            ⟨hadm k s rest ses hi, rfl, pick, σ.others j, hexec⟩, hgood'.kept⟩
        · exact absurd ho' ho
    · cases hstep
  | atomic k start pick =>
    simp only [Sys.step] at hstep
    split at hstep
    · split at hstep <;> cases hstep <;> exact absurd ho' ho
    · cases hstep
  | commit i | abort i =>
    simp only [Sys.step] at hstep
    split at hstep <;> cases hstep
    rcases get_set ho' with ⟨-, hnone⟩ | ⟨-, ho'⟩
    · cases hnone
    · exact absurd ho' ho
  | crash runId jobId =>
    cases hstep
    exact absurd ho' ho

theorem OnTrack.init (P : Promise τ cfg) : OnTrack P {} := fun i o h => by simp at h

end Sys

end TaskScheduler
