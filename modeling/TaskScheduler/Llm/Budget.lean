import Mathlib.Data.List.Nodup
import Mathlib.Data.List.Count
import Mathlib.Tactic.Linarith

/-! Token budgets of the LLM actions, `app/llm/budget.py`, and the executions of `llm_summarize` and
`llm_polish` that check and record them.  The check, the provider's answer and the recording of an
execution are separate steps, and a recording is an upsert that locks its row until it commits. -/

namespace TaskScheduler.Llm

/-! ### Dates -/

def isLeap (year : Nat) : Bool := year % 4 == 0 && (year % 100 != 0 || year % 400 == 0)

def daysInMonth (year month : Nat) : Nat :=
  if month == 2 then (if isLeap year then 29 else 28)
  else if month == 4 || month == 6 || month == 9 || month == 11 then 30
  else 31

/-- A calendar date. -/
structure Date where
  year : Nat
  month : Nat
  day : Nat
  month_pos : 1 ≤ month
  month_le : month ≤ 12
  day_pos : 1 ≤ day
  day_le : day ≤ daysInMonth year month
  deriving DecidableEq

namespace Date

theorem eq_of {a b : Date} (hy : a.year = b.year) (hm : a.month = b.month) (hd : a.day = b.day) :
    a = b := by
  cases a
  cases b
  simp only at hy hm hd
  subst hy hm hd
  rfl

instance : LE Date where
  le a b := a.year < b.year ∨ a.year = b.year ∧
    (a.month < b.month ∨ a.month = b.month ∧ a.day ≤ b.day)

theorem le_def {a b : Date} : a ≤ b ↔ a.year < b.year ∨ a.year = b.year ∧
    (a.month < b.month ∨ a.month = b.month ∧ a.day ≤ b.day) := Iff.rfl

instance (a b : Date) : Decidable (a ≤ b) := decidable_of_iff _ le_def.symm

theorem le_refl (a : Date) : a ≤ a := by
  rw [le_def]
  omega

theorem le_trans {a b c : Date} (h : a ≤ b) (h' : b ≤ c) : a ≤ c := by
  rw [le_def] at *
  omega

theorem le_antisymm {a b : Date} (h : a ≤ b) (h' : b ≤ a) : a = b := by
  rw [le_def] at h h'
  exact eq_of (by omega) (by omega) (by omega)

/-- The first day of the month of a date. -/
def monthStart (d : Date) : Date where
  year := d.year
  month := d.month
  day := 1
  month_pos := d.month_pos
  month_le := d.month_le
  day_pos := le_rfl
  day_le := d.day_pos.trans d.day_le

def inMonth (year month : Nat) (d : Date) : Bool := d.year == year && d.month == month

theorem inMonth_iff {year month : Nat} {d : Date} :
    d.inMonth year month = true ↔ d.year = year ∧ d.month = month := by
  simp [inMonth]

/-- The dates of the current month are not before its first day. -/
theorem monthStart_le {today d : Date} (h : d.inMonth today.year today.month = true) :
    today.monthStart ≤ d := by
  rw [inMonth_iff] at h
  have := d.day_pos
  simp only [le_def, monthStart]
  omega

/-- A month that a date of the past and the present day both belong to is the month of every day in
between. -/
theorem inMonth_between {year month : Nat} {a b c : Date} (hab : a ≤ b) (hbc : b ≤ c)
    (ha : a.inMonth year month = true) (hc : c.inMonth year month = true) :
    b.inMonth year month = true := by
  rw [inMonth_iff] at *
  rw [le_def] at hab hbc
  omega

end Date

def microsPerDay : Nat := 86400 * 1000000

/-- An instant: a date and the microseconds since its midnight, in UTC. -/
structure DateTime where
  date : Date
  micros : Nat
  micros_lt : micros < microsPerDay
  deriving DecidableEq

instance : LE DateTime where
  le a b := a.date ≤ b.date ∧ (a.date = b.date → a.micros ≤ b.micros)

/-- The quotient, rounded up. -/
def ceilDiv (a b : Nat) : Nat := (a + b - 1) / b

/-- `_seconds_until_utc_midnight`. -/
def secondsUntilUtcMidnight (now : DateTime) : Nat :=
  max 1 (ceilDiv (microsPerDay - now.micros) 1000000)

/-- `_seconds_until_next_month`. -/
def secondsUntilNextMonth (now : DateTime) : Nat :=
  max 1 (ceilDiv ((daysInMonth now.date.year now.date.month - now.date.day + 1) * microsPerDay -
    now.micros) 1000000)

/-! ### The table -/

/-- A row of `llm_token_budgets`; its key is the user and the date. -/
structure TokenBudget where
  userId : String
  budgetDate : Date
  tokensUsed : Nat
  updatedAt : DateTime
  deriving DecidableEq

def TokenBudget.key (r : TokenBudget) : String × Date := (r.userId, r.budgetDate)

/-- The sum of `tokens_used` over the rows whose key satisfies `p`. -/
def total (p : String × Date → Bool) (rows : List TokenBudget) : Nat :=
  ((rows.filter fun r => p r.key).map (·.tokensUsed)).sum

/-- The `tokens_used` of one row. -/
def tokensUsed (rows : List TokenBudget) (userId : String) (date : Date) : Option Nat :=
  (rows.find? fun r => r.key == (userId, date)).map (·.tokensUsed)

/-- The row takes the place of the one with its key, or is new. -/
def put (rows : List TokenBudget) (row : TokenBudget) : List TokenBudget :=
  if rows.any fun r => r.key == row.key then
    rows.map fun r => if r.key == row.key then row else r
  else rows ++ [row]

structure TokenBudgetLimits where
  dailyPerUser : Nat
  globalMonthly : Option Nat
  deriving DecidableEq, Repr

inductive BudgetDecision
  | allow
  | dailyBudgetExceeded (retryAfterSeconds : Nat)
  | globalCeilingExceeded (retryAfterSeconds : Nat)
  deriving DecidableEq, Repr

/-- `check_token_budget`: the global ceiling first, then the user's daily budget. -/
def checkTokenBudget (rows : List TokenBudget) (limits : TokenBudgetLimits) (userId : String)
    (now : DateTime) : BudgetDecision :=
  let today := now.date
  if limits.globalMonthly.any fun ceiling =>
      decide (ceiling ≤ total (fun key => decide (today.monthStart ≤ key.2)) rows) then
    .globalCeilingExceeded (secondsUntilNextMonth now)
  else if limits.dailyPerUser ≤ (tokensUsed rows userId today).getD 0 then
    .dailyBudgetExceeded (secondsUntilUtcMidnight now)
  else .allow

/-- The row that the upsert of `record_token_usage` writes, over the committed rows. -/
def recordTokenUsage (rows : List TokenBudget) (userId : String) (tokens : Nat) (now : DateTime) :
    TokenBudget where
  userId := userId
  budgetDate := now.date
  tokensUsed := (tokensUsed rows userId now.date).getD 0 + tokens
  updatedAt := now

/-! ### Sums over the table -/

section Table

variable {p : String × Date → Bool} {rows : List TokenBudget}

@[simp] theorem total_nil : total p [] = 0 := rfl

theorem total_cons (r : TokenBudget) (rows : List TokenBudget) :
    total p (r :: rows) = (if p r.key then r.tokensUsed else 0) + total p rows := by
  unfold total
  rw [List.filter_cons]
  split <;> simp

theorem total_append (rows rows' : List TokenBudget) :
    total p (rows ++ rows') = total p rows + total p rows' := by
  simp [total]

/-- A sum over fewer rows is smaller. -/
theorem total_le {q : String × Date → Bool} (h : ∀ key, p key = true → q key = true)
    (rows : List TokenBudget) : total p rows ≤ total q rows := by
  induction rows with
  | nil => exact le_rfl
  | cons r rows ih =>
    rw [total_cons, total_cons]
    have : (if p r.key then r.tokensUsed else 0) ≤ if q r.key then r.tokensUsed else 0 := by
      split
      · next hp => rw [if_pos (h _ hp)]
      · exact Nat.zero_le _
    omega

theorem total_eq_zero (h : ∀ r ∈ rows, p r.key = false) : total p rows = 0 := by
  induction rows with
  | nil => rfl
  | cons r rows ih =>
    rw [total_cons, h r List.mem_cons_self, ih fun x hx => h x (List.mem_cons_of_mem _ hx)]
    rfl

/-- The tokens of one key are the sum over its one row. -/
theorem tokensUsed_eq_total (hnd : (rows.map (·.key)).Nodup) (userId : String) (date : Date) :
    (tokensUsed rows userId date).getD 0 = total (fun key => key == (userId, date)) rows := by
  induction rows with
  | nil => rfl
  | cons r rows ih =>
    rw [List.map_cons, List.nodup_cons] at hnd
    rw [total_cons]
    unfold tokensUsed at ih ⊢
    rw [List.find?_cons]
    by_cases hkey : (r.key == (userId, date)) = true
    · have hrest : total (fun key => key == (userId, date)) rows = 0 := by
        refine total_eq_zero fun x hx => ?_
        refine beq_false_of_ne fun heq => hnd.1 ?_
        rw [beq_iff_eq] at hkey
        exact List.mem_map.mpr ⟨x, hx, heq.trans hkey.symm⟩
      simp [hkey, hrest]
    · simp only [hkey, Bool.false_eq_true, if_false, Nat.zero_add]
      exact ih hnd.2

theorem put_keys {row : TokenBudget} (hnd : (rows.map (·.key)).Nodup) :
    ((put rows row).map (·.key)).Nodup := by
  unfold put
  split
  · have : (rows.map fun r => if r.key == row.key then row else r).map (·.key) =
        rows.map (·.key) := by
      rw [List.map_map]
      refine List.map_congr_left fun r _ => ?_
      simp only [Function.comp_apply]
      split
      · next h => exact (beq_iff_eq.mp h).symm
      · rfl
    rwa [this]
  · next hnew =>
    rw [List.map_append, List.nodup_append]
    refine ⟨hnd, by simp, ?_⟩
    rintro a ha b hb rfl
    obtain ⟨r, hr, hra⟩ := List.mem_map.mp ha
    refine hnew (List.any_eq_true.mpr ⟨r, hr, ?_⟩)
    simp only [List.map_cons, List.map_nil, List.mem_singleton] at hb
    rw [beq_iff_eq, hra, hb]

theorem mem_put {r row : TokenBudget} (h : r ∈ put rows row) : r ∈ rows ∨ r = row := by
  unfold put at h
  split at h
  · obtain ⟨x, hx, rfl⟩ := List.mem_map.mp h
    split
    · exact .inr rfl
    · exact .inl hx
  · rcases List.mem_append.mp h with h | h
    · exact .inl h
    · exact .inr (List.mem_singleton.mp h)

/-- A sum over the table changes by what the row that is put adds to the one that it replaces. -/
theorem total_put (row : TokenBudget) (hnd : (rows.map (·.key)).Nodup) :
    total p (put rows row) + (if p row.key then total (fun key => key == row.key) rows else 0) =
      total p rows + if p row.key then row.tokensUsed else 0 := by
  by_cases hany : (rows.any fun r => r.key == row.key) = true
  · unfold put
    rw [if_pos hany]
    -- exactly one row is replaced
    induction rows with
    | nil => cases hany
    | cons r rows ih =>
      rw [List.map_cons, List.nodup_cons] at hnd
      rw [List.map_cons, total_cons, total_cons, total_cons]
      by_cases hkey : (r.key == row.key) = true
      · have hother : ∀ x ∈ rows, (x.key == row.key) = false := by
          intro x hx
          refine beq_false_of_ne fun heq => hnd.1 ?_
          exact List.mem_map.mpr ⟨x, hx, heq.trans (beq_iff_eq.mp hkey).symm⟩
        have hsame : (rows.map fun r => if r.key == row.key then row else r) = rows := by
          refine (List.map_congr_left fun x hx => ?_).trans (List.map_id rows)
          rw [hother x hx]
          rfl
        rw [hsame, total_eq_zero (p := fun key => key == row.key) hother, if_pos hkey]
        rw [if_pos hkey, beq_iff_eq.mp hkey]
        split <;> omega
      · have hrest : (rows.any fun r => r.key == row.key) = true := by
          rw [List.any_cons, Bool.or_eq_true] at hany
          exact hany.resolve_left hkey
        have := ih hnd.2 hrest
        rw [if_neg hkey, if_neg hkey, Nat.zero_add]
        omega
  · have hnone : total (fun key => key == row.key) rows = 0 := by
      refine total_eq_zero fun x hx => ?_
      simpa using List.any_eq_false.mp (Bool.eq_false_iff.mpr hany) x hx
    unfold put
    rw [if_neg hany, total_append, total_cons, total_nil, hnone]
    split <;> omega

end Table

/-! ### Executions -/

/-- Where an execution stands once its check has passed: the provider is called, it has answered,
or the upsert has been executed and not yet committed. -/
inductive Phase
  | calling
  | answered (tokens : Nat)
  | recording (row : TokenBudget) (tokens : Nat)
  deriving DecidableEq

structure Execution where
  userId : String
  phase : Phase
  deriving DecidableEq

/-- The row lock of an execution. -/
def Execution.locks (e : Execution) : Option (String × Date) :=
  match e.phase with
  | .recording row _ => some row.key
  | _ => none

/-- The clock, the committed rows, the executions in progress, and, for the account of what has
been recorded, every committed recording. -/
structure State where
  now : DateTime
  rows : List TokenBudget := []
  running : List Execution := []
  recordings : List (String × Date × Nat) := []

/-- One step; a provider call reports at most `M` tokens. -/
inductive Step (limits : TokenBudgetLimits) (M : Nat) : State → State → Prop
  | tick {σ : State} {now : DateTime} (h : σ.now ≤ now) : Step limits M σ { σ with now := now }
  | check {σ : State} {userId : String}
      (h : checkTokenBudget σ.rows limits userId σ.now = .allow) :
    Step limits M σ { σ with running := σ.running ++ [⟨userId, .calling⟩] }
  | answer {σ : State} {before after : List Execution} {userId : String} {tokens : Nat}
      (h : σ.running = before ++ ⟨userId, .calling⟩ :: after) (htokens : tokens ≤ M) :
    Step limits M σ { σ with running := before ++ ⟨userId, .answered tokens⟩ :: after }
  /-- The provider call fails, or the execution is cut off; an upsert is then rolled back. -/
  | fail {σ : State} {before after : List Execution} {e : Execution}
      (h : σ.running = before ++ e :: after) :
    Step limits M σ { σ with running := before ++ after }
  /-- The upsert waits for the lock of its row. -/
  | upsert {σ : State} {before after : List Execution} {userId : String} {tokens : Nat}
      (h : σ.running = before ++ ⟨userId, .answered tokens⟩ :: after)
      (hfree : ∀ e ∈ σ.running, e.locks ≠ some (userId, σ.now.date)) :
    Step limits M σ { σ with running := before ++
      ⟨userId, .recording (recordTokenUsage σ.rows userId tokens σ.now) tokens⟩ :: after }
  | commit {σ : State} {before after : List Execution} {userId : String} {row : TokenBudget}
      {tokens : Nat} (h : σ.running = before ++ ⟨userId, .recording row tokens⟩ :: after) :
    Step limits M σ { σ with
      rows := put σ.rows row
      running := before ++ after
      recordings := σ.recordings ++ [(row.userId, row.budgetDate, tokens)] }

/-- The states that steps reach from an empty table, through states that satisfy `ok`. -/
inductive Reach (limits : TokenBudgetLimits) (M : Nat) (ok : State → Prop) : State → Prop
  | init (now : DateTime) : Reach limits M ok { now := now }
  | step {σ σ' : State} : Reach limits M ok σ → Step limits M σ σ' → ok σ' → Reach limits M ok σ'

/-- The executions in progress that count for `who`. -/
def State.inProgress (σ : State) (who : String → Bool) : Nat :=
  σ.running.countP fun e => who e.userId

/-! ### What every state keeps -/

/-- The key that the next recording of the execution has, if the day does not end before. -/
def Execution.target (e : Execution) (today : Date) : String × Date :=
  match e.phase with
  | .recording row _ => row.key
  | _ => (e.userId, today)

/-- An upsert that has been executed holds its row. -/
structure Execution.Sound (M : Nat) (σ : State) (e : Execution) : Prop where
  answered : ∀ tokens, e.phase = .answered tokens → tokens ≤ M
  recording : ∀ row tokens, e.phase = .recording row tokens → tokens ≤ M ∧ row.userId = e.userId ∧
    row.budgetDate ≤ σ.now.date ∧
    row.tokensUsed = total (fun key => key == row.key) σ.rows + tokens

structure State.Sound (M : Nat) (σ : State) : Prop where
  keys : (σ.rows.map (·.key)).Nodup
  past : ∀ r ∈ σ.rows, r.budgetDate ≤ σ.now.date
  running : ∀ e ∈ σ.running, e.Sound M σ
  locks : (σ.running.filterMap Execution.locks).Nodup
  recordings : ∀ p, total p σ.rows =
    ((σ.recordings.filter fun x => p (x.1, x.2.1)).map (·.2.2)).sum

namespace State.Sound

variable {limits : TokenBudgetLimits} {M : Nat} {σ σ' : State}

/-- The lock of an execution, beside those of the others. -/
theorem locks_append {before after : List Execution} {e : Execution}
    (h : ((before ++ e :: after).filterMap Execution.locks).Nodup) :
    ((before ++ after).filterMap Execution.locks).Nodup ∧
      ∀ key, e.locks = some key → key ∉ (before ++ after).filterMap Execution.locks := by
  rw [List.filterMap_append] at h
  cases hlock : e.locks with
  | none =>
    rw [List.filterMap_cons_none hlock, ← List.filterMap_append] at h
    exact ⟨h, by simp⟩
  | some key =>
    rw [List.filterMap_cons_some hlock, List.nodup_middle, List.nodup_cons,
      ← List.filterMap_append] at h
    refine ⟨h.2, fun key' hkey => ?_⟩
    cases hkey
    exact h.1

/-- An execution that has no lock takes the place of another. -/
theorem locks_replace {before after : List Execution} {e e' : Execution}
    (h : ((before ++ e :: after).filterMap Execution.locks).Nodup)
    (hfree : ∀ key, e'.locks = some key → ∀ x ∈ before ++ e :: after, x.locks ≠ some key) :
    ((before ++ e' :: after).filterMap Execution.locks).Nodup := by
  have hrest := (locks_append h).1
  rw [List.filterMap_append]
  cases hlock : e'.locks with
  | none => rwa [List.filterMap_cons_none hlock, ← List.filterMap_append]
  | some key =>
    rw [List.filterMap_cons_some hlock, List.nodup_middle, List.nodup_cons,
      ← List.filterMap_append]
    refine ⟨fun hmem => ?_, hrest⟩
    obtain ⟨x, hx, hxk⟩ := List.mem_filterMap.mp hmem
    refine hfree key hlock x ?_ hxk
    rcases List.mem_append.mp hx with hx | hx
    · exact List.mem_append_left _ hx
    · exact List.mem_append_right _ (List.mem_cons_of_mem _ hx)

theorem mem_replace {before after : List Execution} {e e' x : Execution}
    (hx : x ∈ before ++ e' :: after) : x = e' ∨ x ∈ before ++ e :: after := by
  rcases List.mem_append.mp hx with hx | hx
  · exact .inr (List.mem_append_left _ hx)
  · rcases List.mem_cons.mp hx with hx | hx
    · exact .inl hx
    · exact .inr (List.mem_append_right _ (List.mem_cons_of_mem _ hx))

theorem mem_remove {before after : List Execution} {e x : Execution} (hx : x ∈ before ++ after) :
    x ∈ before ++ e :: after := by
  rcases List.mem_append.mp hx with hx | hx
  · exact List.mem_append_left _ hx
  · exact List.mem_append_right _ (List.mem_cons_of_mem _ hx)

/-- The sum over one key after a row with another key is put. -/
theorem total_put_other {rows : List TokenBudget} {row : TokenBudget} {key : String × Date}
    (hnd : (rows.map (·.key)).Nodup) (hne : row.key ≠ key) :
    total (fun k => k == key) (put rows row) = total (fun k => k == key) rows := by
  have := total_put (p := fun k => k == key) row hnd
  rwa [beq_false_of_ne hne] at this

theorem step (h : σ.Sound M) (hstep : Step limits M σ σ') : σ'.Sound M := by
  cases hstep with
  | tick hle =>
    refine ⟨h.keys, fun r hr => Date.le_trans (h.past r hr) hle.1, fun e he => ?_, h.locks,
      h.recordings⟩
    refine ⟨(h.running e he).answered, fun row tokens hphase => ?_⟩
    obtain ⟨htokens, huser, hdate, hrow⟩ := (h.running e he).recording row tokens hphase
    exact ⟨htokens, huser, Date.le_trans hdate hle.1, hrow⟩
  | check hallow =>
    refine ⟨h.keys, h.past, fun e he => ?_, ?_, h.recordings⟩
    · rcases List.mem_append.mp he with he | he
      · exact ⟨(h.running e he).answered, (h.running e he).recording⟩
      · rw [List.mem_singleton.mp he]
        exact ⟨by simp, by simp⟩
    · simpa [List.filterMap_append, List.filterMap_cons, Execution.locks] using h.locks
  | @answer before after userId tokens hrun htokens =>
    have hlocks := h.locks
    rw [hrun] at hlocks
    refine ⟨h.keys, h.past, fun e he => ?_, locks_replace hlocks (by simp [Execution.locks]),
      h.recordings⟩
    rcases mem_replace he with rfl | he
    · refine ⟨fun t ht => ?_, by simp⟩
      cases ht
      exact htokens
    · have := h.running e (hrun ▸ he)
      exact ⟨this.answered, this.recording⟩
  | @fail before after e hrun =>
    have hlocks := h.locks
    rw [hrun] at hlocks
    refine ⟨h.keys, h.past, fun x hx => ?_, (locks_append hlocks).1, h.recordings⟩
    have := h.running x (hrun ▸ mem_remove hx)
    exact ⟨this.answered, this.recording⟩
  | @upsert before after userId tokens hrun hfree =>
    have hlocks := h.locks
    rw [hrun] at hlocks hfree
    refine ⟨h.keys, h.past, fun e he => ?_, locks_replace hlocks ?_, h.recordings⟩
    · rcases mem_replace he with rfl | he
      · refine ⟨by simp, fun row t ht => ?_⟩
        cases ht
        have hmem : (⟨userId, .answered tokens⟩ : Execution) ∈ σ.running := by
          rw [hrun]
          exact List.mem_append_right _ List.mem_cons_self
        refine ⟨(h.running _ hmem).answered tokens rfl, rfl, Date.le_refl _, ?_⟩
        simp only [recordTokenUsage, tokensUsed_eq_total h.keys]
        rfl
      · have := h.running e (hrun ▸ he)
        exact ⟨this.answered, this.recording⟩
    · intro key hkey
      cases hkey
      exact hfree
  | @commit before after userId row tokens hrun =>
    have hlocks := h.locks
    rw [hrun] at hlocks
    have hmem : (⟨userId, .recording row tokens⟩ : Execution) ∈ σ.running := by
      rw [hrun]
      exact List.mem_append_right _ List.mem_cons_self
    obtain ⟨htokens, huser, hdate, hrow⟩ := (h.running _ hmem).recording row tokens rfl
    refine ⟨put_keys h.keys, fun r hr => ?_, fun e he => ?_, (locks_append hlocks).1, fun p => ?_⟩
    · rcases mem_put hr with hr | rfl
      · exact h.past r hr
      · exact hdate
    · have hsound := h.running e (hrun ▸ mem_remove he)
      refine ⟨hsound.answered, fun row' tokens' hphase => ?_⟩
      obtain ⟨ht, hu, hd, hr⟩ := hsound.recording row' tokens' hphase
      refine ⟨ht, hu, hd, ?_⟩
      -- the locks keep two recordings off one row
      have hne : row.key ≠ row'.key := by
        intro heq
        refine (locks_append hlocks).2 row.key rfl (List.mem_filterMap.mpr ⟨e, he, ?_⟩)
        simp [Execution.locks, hphase, heq]
      rw [hr, total_put_other h.keys hne]
    · have := total_put (p := p) row h.keys
      rw [h.recordings p] at this
      rw [List.filter_append, List.map_append, List.sum_append]
      have hkey : p (row.userId, row.budgetDate) = p row.key := rfl
      by_cases hp : p row.key = true
      · simp only [hp, if_true] at this
        simp only [List.filter_cons, hkey, hp, if_true, List.filter_nil, List.map_cons, List.map_nil,
          List.sum_cons, List.sum_nil]
        omega
      · simp only [hp, Bool.false_eq_true, if_false] at this
        simp only [List.filter_cons, hkey, hp, Bool.false_eq_true, if_false, List.filter_nil,
          List.map_nil, List.sum_nil]
        omega

theorem init (now : DateTime) : State.Sound M { now := now } :=
  ⟨by simp, by simp, by simp, by simp, by simp⟩

end State.Sound

theorem Reach.sound {limits : TokenBudgetLimits} {M : Nat} {ok : State → Prop} {σ : State}
    (h : Reach limits M ok σ) : σ.Sound M := by
  induction h with
  | init now => exact .init now
  | step _ hstep _ ih => exact ih.step hstep

/-! ### The bound -/

/-- A budget window: the keys that one limit counts.  A past and a future key of the window have the
present ones between them, and a check that allows an execution leaves room under the limit. -/
structure Window (limits : TokenBudgetLimits) (who : String → Bool) (limit : Nat)
    (p : String × Date → Bool) : Prop where
  who : ∀ userId date, p (userId, date) = true → who userId = true
  between : ∀ userId userId' a b c, a ≤ b → b ≤ c → p (userId', a) = true →
    p (userId, c) = true → p (userId, b) = true
  check : ∀ rows userId now, (rows.map TokenBudget.key).Nodup →
    checkTokenBudget rows limits userId now = .allow → p (userId, now.date) = true →
    total p rows + 1 ≤ limit

/-- The executions that may still record a key of the window. -/
def State.pending (σ : State) (p : String × Date → Bool) : Nat :=
  σ.running.countP fun e => p (e.target σ.now.date)

/-- What is recorded and what may still be recorded. -/
def State.Bounded (M K limit : Nat) (p : String × Date → Bool) (σ : State) : Prop :=
  total p σ.rows + M * σ.pending p + 1 ≤ limit + K * M

section Bound

variable {limits : TokenBudgetLimits} {who : String → Bool} {limit M K : Nat}
  {p : String × Date → Bool} {σ σ' : State}

theorem State.Sound.pending_le (h : σ.Sound M) (hp : Window limits who limit p) :
    σ.pending p ≤ σ.inProgress who := by
  refine List.countP_mono_left fun e he hpe => ?_
  unfold Execution.target at hpe
  split at hpe
  · next row tokens hphase =>
    have := (h.running e he).recording row tokens hphase
    exact this.2.1 ▸ hp.who _ _ hpe
  · exact hp.who _ _ hpe

/-- The window is new to the clock: nothing is recorded in it. -/
theorem State.Sound.tick_new (h : σ.Sound M) (hp : Window limits who limit p) {now : DateTime}
    (hle : σ.now ≤ now) {userId : String} (hnew : p (userId, now.date) = true)
    (hold : p (userId, σ.now.date) = false) : total p σ.rows = 0 := by
  refine total_eq_zero fun r hr => Bool.eq_false_iff.mpr fun hpr => ?_
  have := hp.between userId r.userId _ _ _ (h.past r hr) hle.1 hpr hnew
  rw [hold] at this
  cases this

theorem State.Bounded.step (hb : σ.Bounded M K limit p) (h : σ.Sound M)
    (hp : Window limits who limit p) (hlimit : 1 ≤ limit) (hstep : Step limits M σ σ')
    (hK : σ'.inProgress who ≤ K) : σ'.Bounded M K limit p := by
  have hpending := (h.step hstep).pending_le hp
  have hroom : M * σ'.pending p ≤ K * M := by
    rw [Nat.mul_comm]
    exact Nat.mul_le_mul_right M (hpending.trans hK)
  unfold State.Bounded at hb ⊢
  cases hstep with
  | @tick now hle =>
    by_cases hnew : ∃ e ∈ σ.running, p (e.target now.date) = true ∧ p (e.target σ.now.date) = false
    · -- midnight has opened the window, and no row of it is there
      obtain ⟨e, he, hafter, hbefore⟩ := hnew
      have hzero : total p σ.rows = 0 := by
        unfold Execution.target at hafter hbefore
        split at hafter
        · next hphase =>
          rw [hphase] at hbefore
          rw [hafter] at hbefore
          cases hbefore
        · next hphase =>
          split at hbefore
          · next row tokens hrec => exact absurd hrec (hphase row tokens)
          · exact h.tick_new hp hle hafter hbefore
      change total p σ.rows + _ + 1 ≤ _
      omega
    · have hmono : State.pending { σ with now := now } p ≤ σ.pending p := by
        refine List.countP_mono_left fun e he hafter => ?_
        by_contra hbefore
        exact hnew ⟨e, he, hafter, Bool.eq_false_iff.mpr hbefore⟩
      have := Nat.mul_le_mul_left M hmono
      change total p σ.rows + _ + 1 ≤ _
      omega
  | @check userId hallow =>
    by_cases hin : p (userId, σ.now.date) = true
    · have := hp.check σ.rows userId σ.now h.keys hallow hin
      change total p σ.rows + _ + 1 ≤ _
      omega
    · have : State.pending { σ with running := σ.running ++ [⟨userId, .calling⟩] } p =
          σ.pending p := by
        simp [State.pending, List.countP_append, Execution.target, hin]
      rw [this]
      exact hb
  | @answer before after userId tokens hrun htokens =>
    have : State.pending { σ with running := before ++ ⟨userId, .answered tokens⟩ :: after } p =
        σ.pending p := by
      simp [State.pending, hrun, List.countP_append, List.countP_cons, Execution.target]
    rw [this]
    exact hb
  | @fail before after e hrun =>
    have hmono : State.pending { σ with running := before ++ after } p ≤ σ.pending p := by
      simp [State.pending, hrun, List.countP_append, List.countP_cons]
    have := Nat.mul_le_mul_left M hmono
    change total p σ.rows + _ + 1 ≤ _
    omega
  | @upsert before after userId tokens hrun hfree =>
    have : State.pending { σ with running := before ++ ⟨userId, .recording
        (recordTokenUsage σ.rows userId tokens σ.now) tokens⟩ :: after } p = σ.pending p := by
      simp [State.pending, hrun, List.countP_append, List.countP_cons, Execution.target,
        TokenBudget.key, recordTokenUsage]
    rw [this]
    exact hb
  | @commit before after userId row tokens hrun =>
    have hmem : (⟨userId, .recording row tokens⟩ : Execution) ∈ σ.running := by
      rw [hrun]
      exact List.mem_append_right _ List.mem_cons_self
    obtain ⟨htokens, -, -, hrow⟩ := (h.running _ hmem).recording row tokens rfl
    have hput := total_put (p := p) row h.keys
    have hcount : σ.pending p = (before ++ after).countP (fun e => p (e.target σ.now.date)) +
        if p row.key then 1 else 0 := by
      simp only [State.pending, hrun, List.countP_append, List.countP_cons, Execution.target]
      omega
    -- what the commit adds, the execution no longer owes
    change total p (put σ.rows row) +
      M * (before ++ after).countP (fun e => p (e.target σ.now.date)) + 1 ≤ _
    rw [hcount, Nat.mul_add] at hb
    by_cases hin : p row.key = true
    · simp only [hin, if_true, Nat.mul_one] at hput hb
      omega
    · simp only [hin, Bool.false_eq_true, if_false, Nat.mul_zero] at hput hb
      omega

theorem Reach.bounded (hp : Window limits who limit p) (hlimit : 1 ≤ limit)
    (h : Reach limits M (fun τ => τ.inProgress who ≤ K) σ) : σ.Bounded M K limit p := by
  induction h with
  | init now =>
    simp only [State.Bounded, State.pending, total_nil, List.countP_nil]
    omega
  | step hreach hstep hK ih => exact ih.step hreach.sound hp hlimit hstep hK

end Bound

/-- A user's day. -/
theorem Window.daily (limits : TokenBudgetLimits) (userId : String) (date : Date) :
    Window limits (fun u => u == userId) limits.dailyPerUser (fun key => key == (userId, date)) where
  who u d h := by
    simp only [beq_iff_eq, Prod.mk.injEq] at h
    simpa using h.1
  between u u' a b c hab hbc ha hc := by
    simp only [beq_iff_eq, Prod.mk.injEq] at ha hc ⊢
    obtain ⟨-, rfl⟩ := ha
    obtain ⟨rfl, rfl⟩ := hc
    exact ⟨rfl, Date.le_antisymm hbc hab⟩
  check rows u now hnd hallow hin := by
    simp only [beq_iff_eq, Prod.mk.injEq] at hin
    obtain ⟨rfl, rfl⟩ := hin
    simp only [checkTokenBudget] at hallow
    split at hallow
    · cases hallow
    · split at hallow
      · cases hallow
      · next hroom =>
        rw [tokensUsed_eq_total hnd] at hroom
        omega

/-- A calendar month, over all users. -/
theorem Window.monthly {limits : TokenBudgetLimits} {ceiling : Nat}
    (hceiling : limits.globalMonthly = some ceiling) (year month : Nat) :
    Window limits (fun _ => true) ceiling (fun key => key.2.inMonth year month) where
  who _ _ _ := rfl
  between u u' a b c hab hbc ha hc := Date.inMonth_between hab hbc ha hc
  check rows u now hnd hallow hin := by
    simp only [checkTokenBudget, hceiling, Option.any_some] at hallow
    split at hallow
    · cases hallow
    · next hroom =>
      have hle : total (fun key => key.2.inMonth year month) rows ≤
          total (fun key => decide (now.date.monthStart ≤ key.2)) rows := by
        refine total_le (fun key hkey => ?_) rows
        have htoday := Date.inMonth_iff.mp hin
        simp only [decide_eq_true_eq]
        exact Date.monthStart_le (htoday.1 ▸ htoday.2 ▸ hkey)
      simp only [decide_eq_true_eq, not_le] at hroom
      omega

/-- The tokens that are recorded for a user and a day, or for a month over all users, exceed the
budget by what the executions in progress at one time can report at most; and no recording is
lost. -/
theorem tokens_bounded {limits : TokenBudgetLimits} {M K : Nat} {σ : State} :
    (∀ userId, 1 ≤ limits.dailyPerUser →
      Reach limits M (fun τ => τ.inProgress (fun u => u == userId) ≤ K) σ →
      ∀ date, (tokensUsed σ.rows userId date).getD 0 ≤ limits.dailyPerUser - 1 + K * M) ∧
    (∀ ceiling, limits.globalMonthly = some ceiling → 1 ≤ ceiling →
      Reach limits M (fun τ => τ.inProgress (fun _ => true) ≤ K) σ →
      ∀ year month, total (fun key => key.2.inMonth year month) σ.rows ≤ ceiling - 1 + K * M) ∧
    (Reach limits M (fun _ => True) σ → ∀ userId date, (tokensUsed σ.rows userId date).getD 0 =
      ((σ.recordings.filter fun x => (x.1, x.2.1) == (userId, date)).map (·.2.2)).sum) := by
  refine ⟨fun userId hdaily hreach date => ?_, fun ceiling hc hpos hreach year month => ?_,
    fun hreach userId date => ?_⟩
  · have hb := hreach.bounded (Window.daily limits userId date) hdaily
    rw [tokensUsed_eq_total hreach.sound.keys]
    unfold State.Bounded at hb
    omega
  · have hb := hreach.bounded (Window.monthly hc year month) hpos
    unfold State.Bounded at hb
    omega
  · rw [tokensUsed_eq_total hreach.sound.keys]
    exact hreach.sound.recordings _

/-- The last minute of a year, and the first of the next. -/
def lastMinute : DateTime :=
  ⟨⟨2025, 12, 31, by decide, by decide, by decide, by decide⟩, 86399 * 1000000, by decide⟩

def firstMinute : DateTime :=
  ⟨⟨2026, 1, 1, by decide, by decide, by decide, by decide⟩, 0, by decide⟩

/-- A call that starts on one day and is recorded on the next. -/
def midnightRow : TokenBudget := ⟨"alice", firstMinute.date, 5, firstMinute⟩

theorem midnight_reach {ok : State → Prop} (hok : ∀ τ : State, τ.running.length ≤ 1 → ok τ) :
    Reach ⟨3, some 4⟩ 5 ok
      ⟨firstMinute, [midnightRow], [], [("alice", firstMinute.date, 5)]⟩ := by
  have h₁ : Reach ⟨3, some 4⟩ 5 ok ⟨lastMinute, [], [⟨"alice", .calling⟩], []⟩ :=
    .step (.init lastMinute) (.check (by decide)) (hok _ (by decide))
  have h₂ : Reach ⟨3, some 4⟩ 5 ok ⟨firstMinute, [], [⟨"alice", .calling⟩], []⟩ :=
    .step h₁ (.tick ⟨by decide, by decide⟩) (hok _ (by decide))
  have h₃ : Reach ⟨3, some 4⟩ 5 ok ⟨firstMinute, [], [⟨"alice", .answered 5⟩], []⟩ :=
    .step h₂ (@Step.answer _ _ _ [] [] "alice" 5 rfl (by decide)) (hok _ (by decide))
  have h₄ : Reach ⟨3, some 4⟩ 5 ok ⟨firstMinute, [], [⟨"alice", .recording midnightRow 5⟩], []⟩ :=
    .step h₃ (@Step.upsert _ _ ⟨firstMinute, [], [⟨"alice", .answered 5⟩], []⟩ [] [] "alice" 5 rfl
      (by decide)) (hok _ (by decide))
  exact .step h₄ (@Step.commit _ _ _ [] [] "alice" midnightRow 5 rfl) (hok _ (by decide))

/-- The bounds at that run, where one execution is in progress at a time. -/
theorem midnight_tokens :
    (tokensUsed [midnightRow] "alice" firstMinute.date).getD 0 ≤ 3 - 1 + 1 * 5 ∧
      total (fun key => key.2.inMonth 2026 1) [midnightRow] ≤ 4 - 1 + 1 * 5 ∧
      (tokensUsed [midnightRow] "alice" firstMinute.date).getD 0 = 5 := by
  have hcount : ∀ (who : String → Bool) (τ : State), τ.running.length ≤ 1 → τ.inProgress who ≤ 1 :=
    fun who τ h => List.countP_le_length.trans h
  obtain ⟨hdaily, hmonthly, hsum⟩ := @tokens_bounded ⟨3, some 4⟩ 5 1
    ⟨firstMinute, [midnightRow], [], [("alice", firstMinute.date, 5)]⟩
  exact ⟨hdaily "alice" (by decide) (midnight_reach (hcount _)) _,
    hmonthly 4 rfl (by decide) (midnight_reach (hcount _)) 2026 1,
    (hsum (midnight_reach fun _ _ => trivial) "alice" firstMinute.date).trans (by decide)⟩

end TaskScheduler.Llm
