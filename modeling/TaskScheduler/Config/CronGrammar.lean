import TaskScheduler.Config.Cron

/-! The grammar that `app/config/cron.py` documents, five fields or one of five shortcuts, and when
`validate_cron_expr` accepts just its expressions: croniter accepts more, and the filters in front
of it leave some of that through. -/

namespace TaskScheduler

/-! ### The fields of an expression -/

/-- The expression without the white space around it. -/
def cronExpr (s : String) : List Char := strip s.toList

def cronFields (s : String) : Nat := (splitWords [] (cronExpr s)).length

/-- One of the shortcuts, in any case. -/
def Shortcut (s : String) : Prop :=
  ∃ shortcut ∈ acceptedShortcuts, shortcut.toList = (cronExpr s).flatMap lowerChar

/-- It begins with `@reboot` or `@every`, in any case. -/
def RejectedPrefix (s : String) : Prop :=
  ∃ p ∈ rejectedPrefixes, p.toList <+: (cronExpr s).flatMap lowerChar

/-- The documented grammar. -/
def CronGrammar (libs : Libs) (s : String) : Prop :=
  Shortcut s ∨ cronFields s = 5 ∧ libs.isValid (String.ofList (cronExpr s)) = true

instance (s : String) : Decidable (Shortcut s) := List.decidableBEx _ _

instance (s : String) : Decidable (RejectedPrefix s) := List.decidableBEx _ _

instance (libs : Libs) (s : String) : Decidable (CronGrammar libs s) :=
  inferInstanceAs (Decidable (_ ∨ _ ∧ _ = true))

theorem mem_lowerChar_of_isSpace {c : Char} (h : isSpace c = true) : c ∈ lowerChar c := by
  unfold lowerChar
  split
  · next heq =>
    rw [beq_iff_eq] at heq
    simp [isSpace, heq] at h
  · split
    · next heq =>
      rw [beq_iff_eq] at heq
      simp [isSpace, heq] at h
    · rw [List.mem_singleton]
      delta Char.toLower
      rw [dif_neg]
      -- no capital letter is white space
      intro hcap
      simp only [isSpace, Bool.or_eq_true, Bool.and_eq_true, decide_eq_true_eq, beq_iff_eq] at h
      have h₁ : 'A'.toNat ≤ c.toNat := hcap.1
      have h₂ : c.toNat ≤ 'Z'.toNat := hcap.2
      have hA : 'A'.toNat = 65 := rfl
      have hZ : 'Z'.toNat = 90 := rfl
      omega

theorem splitWords_cons (word : List Char) (c : Char) (cs : List Char) :
    splitWords word (c :: cs) = if isSpace c then
      if word.isEmpty then splitWords [] cs else word :: splitWords [] cs
    else splitWords (word ++ [c]) cs := by
  cases word <;> rfl

theorem splitWords_of_no_space {word cs : List Char} (h : ∀ c ∈ cs, isSpace c = false) :
    (splitWords word cs).length ≤ 1 := by
  induction cs generalizing word with
  | nil =>
    cases word with
    | nil => exact Nat.zero_le 1
    | cons c word => exact Nat.le_refl 1
  | cons c cs ih =>
    rw [splitWords_cons, if_neg (by simp [h c])]
    exact ih fun c' hc' => h c' (List.mem_cons_of_mem _ hc')

/-- A shortcut is one field. -/
theorem Shortcut.fields {s : String} (h : Shortcut s) : cronFields s ≤ 1 := by
  obtain ⟨shortcut, hmem, heq⟩ := h
  refine splitWords_of_no_space fun c hc => ?_
  have hclean : (acceptedShortcuts.all fun shortcut =>
      shortcut.toList.all fun c => !isSpace c) = true := by
    decide +kernel
  cases hspace : isSpace c with
  | false => rfl
  | true =>
    have hin : c ∈ shortcut.toList := by
      rw [heq]
      exact List.mem_flatMap.mpr ⟨c, hc, mem_lowerChar_of_isSpace hspace⟩
    have hno := List.all_eq_true.mp (List.all_eq_true.mp hclean shortcut hmem) c hin
    rw [hspace] at hno
    cases hno

theorem Shortcut.not_rejected {s : String} (h : Shortcut s) : ¬RejectedPrefix s := by
  rintro ⟨p, hp, hrejected⟩
  obtain ⟨shortcut, hmem, heq⟩ := h
  rw [← heq] at hrejected
  have hapart : ∀ shortcut ∈ acceptedShortcuts, ∀ p ∈ rejectedPrefixes,
      ¬p.toList <+: shortcut.toList := by
    decide +kernel
  exact hapart shortcut hmem p hp hrejected

/-! ### What is accepted -/

/-- The expressions that the filters let through: the prefixes come first, and only six fields are
counted. -/
theorem validateCronExpr_ok (libs : Libs) (s : String) : validateCronExpr libs s = .ok () ↔
    ¬RejectedPrefix s ∧ (Shortcut s ∨
      cronFields s ≠ 6 ∧ libs.isValid (String.ofList (cronExpr s)) = true) := by
  have hrejected : RejectedPrefix s ↔ ((rejectedPrefixes.find? fun p =>
      p.toList.isPrefixOf ((cronExpr s).flatMap lowerChar)).isSome = true) := by
    rw [List.find?_isSome]
    simp only [RejectedPrefix, List.isPrefixOf_iff_prefix]
  have hshortcut : Shortcut s ↔ (acceptedShortcuts.any fun shortcut =>
      shortcut.toList == (cronExpr s).flatMap lowerChar) = true := by
    simp only [Shortcut, List.any_eq_true, beq_iff_eq]
  have hexpr : strip s.toList = cronExpr s := rfl
  have hfields : (splitWords [] (cronExpr s)).length = cronFields s := rfl
  unfold validateCronExpr
  simp only [hexpr, hfields]
  rw [hrejected, hshortcut]
  cases hfind : rejectedPrefixes.find? fun p =>
      p.toList.isPrefixOf ((cronExpr s).flatMap lowerChar) with
  | some p => exact ⟨fun h => (nomatch h), fun h => absurd rfl h.1⟩
  | none =>
    simp only [Option.isSome_none, Bool.false_eq_true, not_false_eq_true, true_and]
    by_cases hs : (acceptedShortcuts.any fun shortcut =>
        shortcut.toList == (cronExpr s).flatMap lowerChar) = true
    · simp only [hs, if_true, true_or]
    · rw [if_neg hs]
      by_cases h6 : cronFields s = 6
      · rw [if_pos (beq_iff_eq.mpr h6)]
        exact ⟨fun h => (nomatch h), fun h => absurd h6 (h.resolve_left hs).1⟩
      · rw [if_neg fun h => h6 (beq_iff_eq.mp h)]
        cases hvalid : libs.isValid (String.ofList (cronExpr s)) with
        | true => exact ⟨fun _ => .inr ⟨h6, rfl⟩, fun _ => rfl⟩
        | false => exact ⟨fun h => (nomatch h), fun h => nomatch (h.resolve_left hs).2⟩

/-- croniter accepts the expression, although the grammar has none of its kind and no filter takes
it: it is no shortcut, begins with no rejected prefix, and has neither five nor six fields. -/
def LetThrough (libs : Libs) (s : String) : Prop :=
  libs.isValid (String.ofList (cronExpr s)) = true ∧ ¬Shortcut s ∧ ¬RejectedPrefix s ∧
    cronFields s ≠ 5 ∧ cronFields s ≠ 6

/-- croniter accepts five fields of which the first begins with a rejected prefix. -/
def TakenAway (libs : Libs) (s : String) : Prop :=
  libs.isValid (String.ofList (cronExpr s)) = true ∧ RejectedPrefix s ∧ cronFields s = 5

/-- An expression is accepted just when the grammar has it, and then without a field for seconds or
years, unless croniter accepts it beyond the grammar and no filter takes it, or a filter takes it
from the grammar. -/
theorem accepts_grammar_iff (libs : Libs) (s : String) :
    (validateCronExpr libs s = .ok () ↔ CronGrammar libs s) ∧
        (validateCronExpr libs s = .ok () → cronFields s ≤ 5) ↔
      ¬LetThrough libs s ∧ ¬TakenAway libs s := by
  rw [validateCronExpr_ok]
  constructor
  · rintro ⟨hiff, -⟩
    constructor
    · rintro ⟨hvalid, hno, hrejected, h5, h6⟩
      rcases hiff.mp ⟨hrejected, .inr ⟨h6, hvalid⟩⟩ with h | ⟨h, -⟩
      · exact hno h
      · exact h5 h
    · rintro ⟨hvalid, hrejected, h5⟩
      exact (hiff.mpr (.inr ⟨h5, hvalid⟩)).1 hrejected
  · rintro ⟨hlet, htaken⟩
    have hgrammar : ¬RejectedPrefix s ∧ (Shortcut s ∨
        cronFields s ≠ 6 ∧ libs.isValid (String.ofList (cronExpr s)) = true) →
        CronGrammar libs s := by
      rintro ⟨hrejected, h | ⟨h6, hvalid⟩⟩
      · exact .inl h
      · by_cases hs : Shortcut s
        · exact .inl hs
        · by_cases h5 : cronFields s = 5
          · exact .inr ⟨h5, hvalid⟩
          · exact absurd ⟨hvalid, hs, hrejected, h5, h6⟩ hlet
    refine ⟨⟨hgrammar, ?_⟩, fun h => ?_⟩
    · rintro (h | ⟨h5, hvalid⟩)
      · exact ⟨h.not_rejected, .inl h⟩
      · exact ⟨fun hrejected => htaken ⟨hvalid, hrejected, h5⟩, .inr ⟨by omega, hvalid⟩⟩
    · rcases hgrammar h with h | ⟨h5, -⟩
      · exact Nat.le_trans h.fields (by decide)
      · exact Nat.le_of_eq h5

/-- A croniter that accepts any number of fields that it knows, if they are stars, and its own
aliases. -/
def Libs.stars : Libs where
  zoneInfo _ := true
  isValid expr :=
    let words := splitWords [] expr.toList
    decide (5 ≤ words.length ∧ words.length ≤ 7) && words.all (· == ['*']) ||
      expr == "@midnight" || expr == "@annually"
  getNext _ _ _ := none
  fromIsoFormat _ _ := none

/-- Seven stars fire in every second of every year. -/
theorem sevenFields_accepted :
    ¬((validateCronExpr .stars "* * * * * * *" = .ok () ↔ CronGrammar .stars "* * * * * * *") ∧
      (validateCronExpr .stars "* * * * * * *" = .ok () → cronFields "* * * * * * *" ≤ 5)) := by
  rw [validateCronExpr_ok]
  decide +kernel

end TaskScheduler
