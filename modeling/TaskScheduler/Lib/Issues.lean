import TaskScheduler.Lib.Program

/-! What a program issues and returns: a property of every statement that it can come to, and of
every result, whatever the answers to the earlier statements were.  A state property that the
statements keep holds after the program. -/

namespace TaskScheduler.Lib.Program

variable {S : Type} {R : S → Type} {ε α β γ : Type} {P : S → Prop}

/-- Every statement that the program can issue satisfies `P`. -/
def Issues (P : S → Prop) : Program S R ε α → Prop
  | .ret _ => True
  | .raise _ => True
  | .op s k => P s ∧ ∀ r, (k r).Issues P

@[simp] theorem issues_ret (a : α) : (.ret a : Program S R ε α).Issues P := trivial

@[simp] theorem issues_raise (e : ε) : (.raise e : Program S R ε α).Issues P := trivial

theorem Issues.of_all (h : ∀ s, P s) (t : Program S R ε α) : t.Issues P := by
  induction t with
  | ret a => trivial
  | raise e => trivial
  | op s k ih => exact ⟨h s, fun r => ih r⟩

theorem Issues.bind {t : Program S R ε α} {f : α → Program S R ε β} (ht : t.Issues P)
    (hf : ∀ a, (f a).Issues P) : (t >>= f).Issues P := by
  induction t with
  | ret a => exact hf a
  | raise e => trivial
  | op s k ih => exact ⟨ht.1, fun r => ih r (ht.2 r)⟩

theorem Issues.forM {f : β → Program S R ε PUnit} {bs : List β}
    (hf : ∀ b ∈ bs, (f b).Issues P) : (bs.forM f).Issues P := by
  induction bs with
  | nil => trivial
  | cons b bs ih =>
    rw [forM_cons]
    exact (hf b List.mem_cons_self).bind fun _ => ih fun c hc => hf c (List.mem_cons_of_mem _ hc)

theorem Issues.ite {c : Prop} [Decidable c] {t u : Program S R ε α} (ht : c → t.Issues P)
    (hu : ¬c → u.Issues P) : (if c then t else u).Issues P := by
  split
  · exact ht ‹_›
  · exact hu ‹_›

theorem Issues.mono {Q : S → Prop} {t : Program S R ε α} (h : t.Issues P) (hPQ : ∀ s, P s → Q s) :
    t.Issues Q := by
  induction t with
  | ret a => trivial
  | raise e => trivial
  | op s k ih => exact ⟨hPQ s h.1, fun r => ih r (h.2 r)⟩

theorem Issues.and {Q : S → Prop} {t : Program S R ε α} (h : t.Issues P) (h' : t.Issues Q) :
    t.Issues fun s => P s ∧ Q s := by
  induction t with
  | ret a => trivial
  | raise e => trivial
  | op s k ih => exact ⟨⟨h.1, h'.1⟩, fun r => ih r (h.2 r) (h'.2 r)⟩

/-- What the statements of a program keep, its execution keeps, however it ends. -/
theorem Issues.run {exec : (s : S) → γ → Option (R s × γ)} {I : γ → Prop} {t : Program S R ε α}
    (h : t.Issues P) (step : ∀ s g r g', P s → I g → exec s g = some (r, g') → I g') {g g' : γ}
    {res : Except ε α} (hI : I g) (hrun : t.run exec g = some (res, g')) : I g' := by
  induction t generalizing g with
  | ret a | raise e =>
    simp only [Program.run, Option.some.injEq, Prod.mk.injEq] at hrun
    obtain ⟨-, rfl⟩ := hrun
    exact hI
  | op s k ih =>
    simp only [Program.run, Option.bind_eq_some_iff] at hrun
    obtain ⟨⟨r, g₁⟩, hexec, hrest⟩ := hrun
    exact ih r (h.2 r) (step s g r g₁ h.1 hI hexec) hrest

/-- Every result that the program can end with satisfies `Q`. -/
def Returns (Q : α → Prop) : Program S R ε α → Prop
  | .ret a => Q a
  | .raise _ => True
  | .op _ k => ∀ r, (k r).Returns Q

theorem Returns.bind {Q : β → Prop} (t : Program S R ε α) {f : α → Program S R ε β}
    (hf : ∀ a, (f a).Returns Q) : (t >>= f).Returns Q := by
  induction t with
  | ret a => exact hf a
  | raise e => trivial
  | op s k ih => exact ih

theorem Returns.run {exec : (s : S) → γ → Option (R s × γ)} {Q : α → Prop}
    {t : Program S R ε α} (h : t.Returns Q) {g g' : γ} {a : α}
    (hrun : t.run exec g = some (.ok a, g')) : Q a := by
  induction t generalizing g with
  | ret b =>
    cases hrun
    exact h
  | raise e => cases hrun
  | op s k ih =>
    simp only [Program.run, Option.bind_eq_some_iff] at hrun
    obtain ⟨⟨r, g₁⟩, -, hrest⟩ := hrun
    exact ih r (h r) hrest

end TaskScheduler.Lib.Program
