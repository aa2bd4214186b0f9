import TaskScheduler.Lib.Program

/-! Programs whose statements interleave with those of others.  Between two statements of a program
an environment may act; what it may do is a relation on states.  The weakest precondition over such
an account is stable under the environment, so that it can be carried along a run of the whole.
A program may also keep its writes back and replay them later, on a state that has changed since. -/

namespace TaskScheduler.Lib

variable {S : Type} {R : S → Type} {ε α β γ : Type}

namespace Account

/-- The account `acc` among others: the environment acts before every statement, and after every
statement `keep` must hold. -/
def among (acc : Account S R γ) (env : γ → γ → Prop) (keep : γ → Prop) : Account S R γ where
  may s g := ∀ g₁, env g g₁ → acc.may s g₁ ∧ ∀ r g', acc.next s g₁ r g' → keep g'
  next s g r g' := ∃ g₁, env g g₁ ∧ acc.next s g₁ r g'

end Account

namespace Program

variable {acc : Account S R γ} {env : γ → γ → Prop} {keep : γ → Prop} {E : ε → γ → Prop}
  {Q : α → γ → Prop}

/-- The weakest precondition of one statement among others. -/
theorem wp_among {s : S} {k : R s → Program S R ε α} {g : γ}
    (h : ∀ g₁, env g g₁ → acc.may s g₁ ∧ ∀ r g', acc.next s g₁ r g' →
      keep g' ∧ (k r).wp (acc.among env keep) E Q g') :
    (op s k).wp (acc.among env keep) E Q g :=
  ⟨fun g₁ h₁ => ⟨(h g₁ h₁).1, fun r g' hn => ((h g₁ h₁).2 r g' hn).1⟩,
    fun r g' ⟨g₁, h₁, hn⟩ => ((h g₁ h₁).2 r g' hn).2⟩

/-- One statement from a state that the environment has not left. -/
theorem wp_among_step {s : S} {k : R s → Program S R ε α} {g : γ}
    (h : (op s k).wp (acc.among env keep) E Q g) (hg : env g g) {r : R s}
    (g' : γ) (hn : acc.next s g r g') : keep g' ∧ (k r).wp (acc.among env keep) E Q g' :=
  ⟨(h.1 g hg).2 r g' hn, h.2 r g' ⟨g, hg, hn⟩⟩

/-- What a program will do is stable under its environment. -/
theorem wp_env (trans : ∀ {a b c}, env a b → env b c → env a c)
    (hE : ∀ e g g', env g g' → E e g → E e g') (hQ : ∀ a g g', env g g' → Q a g → Q a g')
    {t : Program S R ε α} {g g' : γ} (h : t.wp (acc.among env keep) E Q g) (henv : env g g') :
    t.wp (acc.among env keep) E Q g' := by
  cases t with
  | ret a => exact hQ a g g' henv h
  | raise e => exact hE e g g' henv h
  | op s k =>
    exact ⟨fun g₁ h₁ => h.1 g₁ (trans henv h₁),
      fun r g₂ ⟨g₁, h₁, hn⟩ => h.2 r g₂ ⟨g₁, trans henv h₁, hn⟩⟩

end Program

/-! ### Writes that are kept back -/

variable {T W : Type} {apply : W → T → T} {V V' : T → W → Prop} {ws : List W} {w : W} {t t' : T}

/-- The writes `ws` on `t`, each valid where the earlier ones lead. -/
def Replays (apply : W → T → T) (V : T → W → Prop) : List W → T → Prop
  | [], _ => True
  | w :: ws, t => V t w ∧ Replays apply V ws (apply w t)

namespace Replays

theorem append (h : Replays apply V ws t) (hw : V (ws.foldl (fun t w => apply w t) t) w) :
    Replays apply V (ws ++ [w]) t := by
  induction ws generalizing t with
  | nil => exact ⟨hw, trivial⟩
  | cons v ws ih => exact ⟨h.1, ih h.2 hw⟩

/-- The last write is valid where the earlier ones lead. -/
theorem last (h : Replays apply V (ws ++ [w]) t) : V (ws.foldl (fun t w => apply w t) t) w := by
  induction ws generalizing t with
  | nil => exact h.1
  | cons v ws ih => exact ih h.2

theorem mono (h : Replays apply V ws t) (hV : ∀ t w, V t w → V' t w) : Replays apply V' ws t := by
  induction ws generalizing t with
  | nil => trivial
  | cons w ws ih => exact ⟨hV t w h.1, ih h.2⟩

theorem mem (h : Replays apply V ws t) (hw : w ∈ ws) : ∃ t', V t' w := by
  induction ws generalizing t with
  | nil => cases hw
  | cons v ws ih =>
    rcases List.mem_cons.mp hw with rfl | hw
    · exact ⟨t, h.1⟩
    · exact ih h.2 hw

/-- Every write is valid somewhere that the writes before it lead. -/
theorem mem_of_keeps {P : T → Prop} (h : Replays apply V ws t)
    (step : ∀ t, ∀ w ∈ ws, P t → V t w → P (apply w t)) (hP : P t) (hw : w ∈ ws) :
    ∃ t', P t' ∧ V t' w := by
  induction ws generalizing t with
  | nil => cases hw
  | cons v ws ih =>
    rcases List.mem_cons.mp hw with rfl | hw
    · exact ⟨t, hP, h.1⟩
    · exact ih h.2 (fun t u hu => step t u (List.mem_cons_of_mem _ hu))
        (step t v List.mem_cons_self hP h.1) hw

/-- What every valid write keeps, all of them keep. -/
theorem invariant {P : T → Prop} (h : Replays apply V ws t)
    (step : ∀ t, ∀ w ∈ ws, P t → V t w → P (apply w t)) (hP : P t) :
    P (ws.foldl (fun t w => apply w t) t) := by
  induction ws generalizing t with
  | nil => exact hP
  | cons w ws ih =>
    exact ih h.2 (fun t v hv => step t v (List.mem_cons_of_mem _ hv))
      (step t w List.mem_cons_self hP h.1)

/-- Valid writes stay valid when the state under them changes, if one write does. -/
theorem stable {E : T → T → Prop} (h : Replays apply V ws t)
    (step : ∀ t t' w, E t t' → V t w → V t' w ∧ E (apply w t) (apply w t')) (hE : E t t') :
    Replays apply V ws t' ∧
      E (ws.foldl (fun t w => apply w t) t) (ws.foldl (fun t w => apply w t) t') := by
  induction ws generalizing t t' with
  | nil => exact ⟨trivial, hE⟩
  | cons w ws ih =>
    obtain ⟨hw, hE'⟩ := step t t' w hE h.1
    obtain ⟨hws, hend⟩ := ih h.2 hE'
    exact ⟨⟨hw, hws⟩, hend⟩

end Replays

end TaskScheduler.Lib
