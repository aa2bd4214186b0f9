import TaskScheduler.Lib.Program

/-! Two executions of one program, on two machines.  They are in step when every answer that differs
between them leaves the program the same, so that they end with the same result or exception; what
holds between the two states at the end is a relation. -/

namespace TaskScheduler.Lib.Program

variable {S : Type} {R : S → Type} {ε α β γ δ : Type}
  {exec : (s : S) → γ → Option (R s × γ)} {exec' : (s : S) → δ → Option (R s × δ)}
  {E : ε → γ → δ → Prop} {Q Q' : α → γ → δ → Prop}

/-- The two executions from `g` and `g'` are in step, and end in states that `Q` or `E` relates. -/
def InStep (exec : (s : S) → γ → Option (R s × γ)) (exec' : (s : S) → δ → Option (R s × δ))
    (E : ε → γ → δ → Prop) (Q : α → γ → δ → Prop) : Program S R ε α → γ → δ → Prop
  | .ret a, g, g' => Q a g g'
  | .raise e, g, g' => E e g g'
  | .op s k, g, g' => ∀ r g₁ r' g₁', exec s g = some (r, g₁) → exec' s g' = some (r', g₁') →
    k r = k r' ∧ (k r).InStep exec exec' E Q g₁ g₁'

/-- The relation that the end `res` of the two falls under. -/
def EndAlike (E : ε → γ → δ → Prop) (Q : α → γ → δ → Prop) : Except ε α → γ → δ → Prop
  | .ok a => Q a
  | .error e => E e

namespace InStep

theorem mono {t : Program S R ε α} {g : γ} {g' : δ} (h : t.InStep exec exec' E Q g g')
    (hQ : ∀ a g g', Q a g g' → Q' a g g') : t.InStep exec exec' E Q' g g' := by
  induction t generalizing g g' with
  | ret a => exact hQ a g g' h
  | raise e => exact h
  | op s k ih =>
    intro r g₁ r' g₁' hr hr'
    obtain ⟨heq, hrest⟩ := h r g₁ r' g₁' hr hr'
    exact ⟨heq, ih r hrest⟩

theorem bind {Q : β → γ → δ → Prop} {t : Program S R ε α} {f : α → Program S R ε β} {g : γ} {g' : δ}
    (h : t.InStep exec exec' E (fun a => (f a).InStep exec exec' E Q) g g') :
    (t >>= f).InStep exec exec' E Q g g' := by
  induction t generalizing g g' with
  | ret a => exact h
  | raise e => exact h
  | op s k ih =>
    intro r g₁ r' g₁' hr hr'
    obtain ⟨heq, hrest⟩ := h r g₁ r' g₁' hr hr'
    exact ⟨congrArg (· >>= f) heq, ih r hrest⟩

/-- The loop rule: what every iteration keeps between the two states, the loop keeps. -/
theorem forM {f : β → Program S R ε PUnit} {I : γ → δ → Prop} {bs : List β}
    (step : ∀ b ∈ bs, ∀ g g', I g g' → (f b).InStep exec exec' E (fun _ => I) g g') {g : γ} {g' : δ}
    (h : I g g') : (bs.forM f).InStep exec exec' E (fun _ => I) g g' := by
  induction bs generalizing g g' with
  | nil => exact h
  | cons b bs ih =>
    rw [forM_cons]
    refine bind ((step b List.mem_cons_self g g' h).mono fun _ g₁ g₁' h₁ => ?_)
    exact ih (fun c hc => step c (List.mem_cons_of_mem _ hc)) h₁

/-- Executions that are in step end alike. -/
theorem run {t : Program S R ε α} {g g₁ : γ} {g' g₁' : δ} (h : t.InStep exec exec' E Q g g')
    {res res' : Except ε α} (hrun : t.run exec g = some (res, g₁))
    (hrun' : t.run exec' g' = some (res', g₁')) :
    res = res' ∧ EndAlike E Q res g₁ g₁' := by
  induction t generalizing g g' with
  | ret a =>
    cases hrun
    cases hrun'
    exact ⟨rfl, h⟩
  | raise e =>
    cases hrun
    cases hrun'
    exact ⟨rfl, h⟩
  | op s k ih =>
    simp only [Program.run, Option.bind_eq_some_iff] at hrun hrun'
    obtain ⟨⟨r, g₂⟩, hexec, hrest⟩ := hrun
    obtain ⟨⟨r', g₂'⟩, hexec', hrest'⟩ := hrun'
    obtain ⟨heq, hstep⟩ := h r g₂ r' g₂' hexec hexec'
    exact ih r hstep hrest (heq ▸ hrest')

end InStep

end TaskScheduler.Lib.Program
