/-! Programs that issue statements and continue with the answers.  A program is a tree: it ends
with a result or an exception, or issues a statement and branches on the answer.  `run` executes
one against a machine, statement after statement.  `wp` is its weakest precondition over a
nondeterministic account of the statements, which a machine may refine.  Nothing here depends on
what the statements are. -/

namespace TaskScheduler.Lib

/-- A program over statements `S`, where statement `s` is answered by a value of type `R s`. -/
inductive Program (S : Type) (R : S → Type) (ε α : Type) : Type
  | ret (a : α)
  | raise (e : ε)
  | op (s : S) (k : R s → Program S R ε α)

namespace Program

variable {S : Type} {R : S → Type} {ε α β : Type}

/-- Sequencing: an exception of the first program skips the second. -/
def bind : Program S R ε α → (α → Program S R ε β) → Program S R ε β
  | .ret a, f => f a
  | .raise e, _ => .raise e
  | .op s k, f => .op s fun r => (k r).bind f

instance : Monad (Program S R ε) where
  pure := .ret
  bind := .bind

@[simp] theorem pure_eq (a : α) : (pure a : Program S R ε α) = .ret a := rfl

@[simp] theorem ret_bind (a : α) (f : α → Program S R ε β) : (.ret a >>= f) = f a := rfl

@[simp] theorem raise_bind (e : ε) (f : α → Program S R ε β) :
    ((.raise e : Program S R ε α) >>= f) = .raise e := rfl

@[simp] theorem op_bind (s : S) (k : R s → Program S R ε α) (f : α → Program S R ε β) :
    (.op s k >>= f) = .op s fun r => k r >>= f := rfl

theorem forM_nil (f : α → Program S R ε PUnit) : [].forM f = .ret ⟨⟩ := rfl

theorem forM_cons (a : α) (as : List α) (f : α → Program S R ε PUnit) :
    (a :: as).forM f = (f a >>= fun _ => as.forM f) := rfl

/-- Execution on a machine that answers statement `s` in state `g`, or blocks. -/
def run {γ : Type} (exec : (s : S) → γ → Option (R s × γ)) :
    Program S R ε α → γ → Option (Except ε α × γ)
  | .ret a, g => some (.ok a, g)
  | .raise e, g => some (.error e, g)
  | .op s k, g => (exec s g).bind fun a => (k a.1).run exec a.2

theorem run_bind {γ : Type} (exec : (s : S) → γ → Option (R s × γ)) (t : Program S R ε α)
    (f : α → Program S R ε β) (g : γ) :
    (t >>= f).run exec g = (t.run exec g).bind fun
      | (.ok a, g') => (f a).run exec g'
      | (.error e, g') => some (.error e, g') := by
  induction t generalizing g with
  | ret a => rfl
  | raise e => rfl
  | op s k ih =>
    simp only [op_bind, run, Option.bind_assoc, ih]

/-- A sequence ends with a result only if both of its parts do. -/
theorem run_bind_ok {γ : Type} {exec : (s : S) → γ → Option (R s × γ)} {t : Program S R ε α}
    {f : α → Program S R ε β} {g g' : γ} {b : β}
    (h : (t >>= f).run exec g = some (.ok b, g')) :
    ∃ a g₁, t.run exec g = some (.ok a, g₁) ∧ (f a).run exec g₁ = some (.ok b, g') := by
  rw [run_bind, Option.bind_eq_some_iff] at h
  obtain ⟨⟨res, g₁⟩, ht, hf⟩ := h
  cases res with
  | ok a => exact ⟨a, g₁, ht, hf⟩
  | error e => cases hf

theorem forM_append (as bs : List α) (f : α → Program S R ε PUnit) :
    (as ++ bs).forM f = (as.forM f >>= fun _ => bs.forM f) := by
  have hassoc : ∀ (t : Program S R ε PUnit) (g h : PUnit → Program S R ε PUnit),
      (t >>= g >>= h) = (t >>= fun a => g a >>= h) := by
    intro t g h
    induction t with
    | ret a => rfl
    | raise e => rfl
    | op s k ih =>
      simp only [op_bind]
      congr 1
      funext r
      exact ih r
  induction as with
  | nil => rfl
  | cons a as ih =>
    rw [List.cons_append, forM_cons, forM_cons, ih, hassoc]

end Program

/-- A nondeterministic account of statements over states `γ`: what must hold where a statement is
issued, and which answers and next states it can have there. -/
structure Account (S : Type) (R : S → Type) (γ : Type) where
  may : S → γ → Prop
  next : (s : S) → γ → R s → γ → Prop

namespace Program

variable {S : Type} {R : S → Type} {ε α β γ δ : Type}

/-- The weakest precondition of a program: every statement it issues may be issued, every way it
ends with a result satisfies `Q`, and every way it ends with an exception satisfies `E`. -/
def wp (acc : Account S R γ) (E : ε → γ → Prop) (Q : α → γ → Prop) :
    Program S R ε α → γ → Prop
  | .ret a, g => Q a g
  | .raise e, g => E e g
  | .op s k, g => acc.may s g ∧ ∀ r g', acc.next s g r g' → (k r).wp acc E Q g'

section Rules

variable {acc : Account S R γ} {E : ε → γ → Prop} {Q Q' : α → γ → Prop}

@[simp] theorem wp_ret (a : α) (g : γ) : (ret a : Program S R ε α).wp acc E Q g ↔ Q a g := Iff.rfl

@[simp] theorem wp_raise (e : ε) (g : γ) :
    (raise e : Program S R ε α).wp acc E Q g ↔ E e g := Iff.rfl

theorem wp_op (s : S) (k : R s → Program S R ε α) (g : γ) :
    (op s k).wp acc E Q g ↔
      acc.may s g ∧ ∀ r g', acc.next s g r g' → (k r).wp acc E Q g' := Iff.rfl

theorem wp_bind {Q : β → γ → Prop} (t : Program S R ε α) (f : α → Program S R ε β) (g : γ) :
    (t >>= f).wp acc E Q g ↔ t.wp acc E (fun a => (f a).wp acc E Q) g := by
  induction t generalizing g with
  | ret a => rfl
  | raise e => rfl
  | op s k ih =>
    simp only [op_bind, wp_op]
    exact and_congr_right fun _ => forall_congr' fun r => forall_congr' fun g' =>
      imp_congr_right fun _ => ih r g'

theorem wp_mono {t : Program S R ε α} {g : γ} (h : t.wp acc E Q g)
    (hQ : ∀ a g', Q a g' → Q' a g') : t.wp acc E Q' g := by
  induction t generalizing g with
  | ret a => exact hQ a g h
  | raise e => exact h
  | op s k ih => exact ⟨h.1, fun r g' hn => ih r (h.2 r g' hn)⟩

/-- Two readings of one program hold of it together. -/
theorem wp_both {E' : ε → γ → Prop} {t : Program S R ε α} {g : γ} (h : t.wp acc E Q g)
    (h' : t.wp acc E' Q' g) :
    t.wp acc (fun e g' => E e g' ∧ E' e g') (fun a g' => Q a g' ∧ Q' a g') g := by
  induction t generalizing g with
  | ret a => exact ⟨h, h'⟩
  | raise e => exact ⟨h, h'⟩
  | op s k ih => exact ⟨h.1, fun r g' hn => ih r (h.2 r g' hn) (h'.2 r g' hn)⟩

theorem wp_imp {E' : ε → γ → Prop} {t : Program S R ε α} {g : γ} (h : t.wp acc E Q g)
    (hE : ∀ e g', E e g' → E' e g') (hQ : ∀ a g', Q a g' → Q' a g') : t.wp acc E' Q' g := by
  induction t generalizing g with
  | ret a => exact hQ a g h
  | raise e => exact hE e g h
  | op s k ih => exact ⟨h.1, fun r g' hn => ih r (h.2 r g' hn)⟩

/-- What holds for every answer that an account allows holds for those that a narrower one does. -/
theorem wp_account {acc' : Account S R γ} (hmay : ∀ s g, acc.may s g → acc'.may s g)
    (hnext : ∀ s g r g', acc'.next s g r g' → acc.next s g r g') {t : Program S R ε α} {g : γ}
    (h : t.wp acc E Q g) : t.wp acc' E Q g := by
  induction t generalizing g with
  | ret a => exact h
  | raise e => exact h
  | op s k ih => exact ⟨hmay s g h.1, fun r g' hn => ih r (h.2 r g' (hnext s g r g' hn))⟩

/-- The loop rule: an invariant of the items still to come that every iteration keeps. -/
theorem wp_forM {f : β → Program S R ε PUnit} {Q : PUnit → γ → Prop} (I : List β → γ → Prop)
    (step : ∀ b bs g, I (b :: bs) g → (f b).wp acc E (fun _ g' => I bs g') g)
    (done : ∀ g, I [] g → Q ⟨⟩ g) (bs : List β) (g : γ) (h : I bs g) :
    (bs.forM f).wp acc E Q g := by
  induction bs generalizing g with
  | nil => exact done g h
  | cons b bs ih =>
    rw [forM_cons, wp_bind]
    exact wp_mono (step b bs g h) fun _ g' h' => ih g' h'

end Rules

/-- The postcondition that the end `res` of a program falls under. -/
def Ends (E : ε → γ → Prop) (Q : α → γ → Prop) : Except ε α → γ → Prop
  | .ok a => Q a
  | .error e => E e

/-- A machine whose answers an account allows, seen through a relation `rel` between the states of
the two, runs a program to an end that its weakest precondition describes. -/
theorem run_of_wp {exec : (s : S) → δ → Option (R s × δ)} {acc : Account S R γ}
    {E : ε → γ → Prop} {Q : α → γ → Prop} (rel : δ → γ → Prop)
    (sim : ∀ s d g r d', rel d g → acc.may s g → exec s d = some (r, d') →
      ∃ g', acc.next s g r g' ∧ rel d' g')
    (t : Program S R ε α) (d : δ) (g : γ) (hrel : rel d g) (h : t.wp acc E Q g)
    {res : Except ε α} {d' : δ} (hrun : t.run exec d = some (res, d')) :
    ∃ g', rel d' g' ∧ Ends E Q res g' := by
  induction t generalizing d g with
  | ret a =>
    simp only [run, Option.some.injEq, Prod.mk.injEq] at hrun
    obtain ⟨rfl, rfl⟩ := hrun
    exact ⟨g, hrel, h⟩
  | raise e =>
    simp only [run, Option.some.injEq, Prod.mk.injEq] at hrun
    obtain ⟨rfl, rfl⟩ := hrun
    exact ⟨g, hrel, h⟩
  | op s k ih =>
    simp only [run, Option.bind_eq_some_iff] at hrun
    obtain ⟨⟨r, d₁⟩, hexec, hrest⟩ := hrun
    obtain ⟨g₁, hnext, hrel₁⟩ := sim s d g r d₁ hrel h.1 hexec
    exact ih r d₁ g₁ hrel₁ (h.2 r g₁ hnext) hrest

end Program

end TaskScheduler.Lib
