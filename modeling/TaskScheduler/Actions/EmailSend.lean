/-! The effectively-once send of `email_send`: the dedup gate of `app/actions/send_dedup.py`, and the
send of `app/actions/email_send.py` as the separately committed steps that a crash can fall
between. -/

namespace TaskScheduler.Email

/-! ### The dedup gate -/

/-- `SendIntent.status`. -/
inductive IntentStatus
  | attempting
  | sent
  deriving DecidableEq, Repr

/-- A row of `send_intents`; its key is `idempotencyKey`. -/
structure SendIntent where
  idempotencyKey : String
  runId : Nat
  status : IntentStatus
  providerMessageId : Option String
  deriving DecidableEq, Repr

/-- `derive_idempotency_key`. -/
def deriveIdempotencyKey (action : String) (runId : Nat) : String := action ++ ":" ++ toString runId

inductive SendDecision
  | send
  | resend
  | skip
  deriving DecidableEq, Repr

/-- `decide_send`. -/
def decideSend : Option IntentStatus → SendDecision
  | none => .send
  | some .sent => .skip
  | some .attempting => .resend

structure SendGate where
  decision : SendDecision
  providerMessageId : Option String := none
  deriving DecidableEq, Repr

/-- The row of a key. -/
def intent (rows : List SendIntent) (key : String) : Option SendIntent :=
  rows.find? fun r => r.idempotencyKey == key

/-- `PostgresDedupStore.begin`: the insert wins unless the key is there, and then its row
decides. -/
def begin_ (rows : List SendIntent) (key : String) (runId : Nat) : List SendIntent × SendGate :=
  match intent rows key with
  | none => (rows ++ [⟨key, runId, .attempting, none⟩], ⟨.send, none⟩)
  | some existing =>
    let decision := decideSend (some existing.status)
    (rows, ⟨decision, if decision = .skip then existing.providerMessageId else none⟩)

/-- `PostgresDedupStore.mark_sent`. -/
def markSent (rows : List SendIntent) (key : String) (providerMessageId : Option String) :
    List SendIntent :=
  rows.map fun r =>
    if r.idempotencyKey == key then
      { r with status := .sent, providerMessageId := providerMessageId }
    else r

/-! ### The provider -/

/-- The answer of the Gmail API; `messageId` is what `_provider_message_id` reads from it. -/
structure Response where
  statusCode : Nat
  text : String
  messageId : Option String
  deriving DecidableEq, Repr

/-- The error of an answer and whether it may be retried; a 2xx answer has none. -/
def Response.error (resp : Response) : Option (String × Bool) :=
  if resp.statusCode = 401 then
    some ("Gmail API 401 Unauthorized — the stored Google connection is invalid " ++
      "or revoked; reconnect at /connections", false)
  else if resp.statusCode = 403 then
    some ("Gmail API 403 Forbidden — insufficient scope or quota exceeded", false)
  else if resp.statusCode = 429 then some ("Gmail API 429 rate limited", true)
  else if 500 ≤ resp.statusCode then
    some ("Gmail API " ++ toString resp.statusCode ++ " Server Error", true)
  else if ¬(200 ≤ resp.statusCode ∧ resp.statusCode ≤ 299) then
    some ("Gmail API error " ++ toString resp.statusCode ++ ": " ++ (resp.text.take 200).toString,
      false)
  else none

/-! ### Executions of one run, one after the other -/

/-- Where the execution stands: none is in progress; it has started; the gate has let it through;
the provider has confirmed, having accepted the message or not, and the row is not marked yet. -/
inductive Phase
  | idle
  | started
  | calling
  | confirmed (accepted : Bool) (messageId : Option String)
  deriving DecidableEq, Repr

/-- The intents, the phase, and the counts of the provider calls, of the messages that the provider
accepted, and of the executions that ended after that and before their mark committed. -/
structure State where
  rows : List SendIntent
  phase : Phase := .idle
  calls : Nat := 0
  accepted : Nat := 0
  unmarked : Nat := 0

def State.marked (σ : State) (key : String) : Prop :=
  (intent σ.rows key).map (·.status) = some .sent

instance (σ : State) (key : String) : Decidable (σ.marked key) := by
  unfold State.marked
  infer_instance

/-- The steps of the executions of run `runId`. -/
inductive Step (runId : Nat) : State → State → Prop
  | start {σ : State} (h : σ.phase = .idle) : Step runId σ { σ with phase := .started }
  /-- The body, the user or the connection is missing. -/
  | refuse {σ : State} (h : σ.phase = .started) : Step runId σ { σ with phase := .idle }
  /-- `begin` commits. -/
  | begin_ {σ : State} (h : σ.phase = .started) :
    Step runId σ { σ with
      rows := (begin_ σ.rows (deriveIdempotencyKey "email_send" runId) runId).1
      phase := if (begin_ σ.rows (deriveIdempotencyKey "email_send" runId) runId).2.decision = .skip
        then .idle else .calling }
  /-- The provider is called and does not answer. -/
  | noAnswer {σ : State} (h : σ.phase = .calling) (accepted : Bool) :
    Step runId σ { σ with
      phase := .idle
      calls := σ.calls + 1
      accepted := σ.accepted + accepted.toNat
      unmarked := σ.unmarked + accepted.toNat }
  /-- It is called and answers with an error. -/
  | errorAnswer {σ : State} (h : σ.phase = .calling) (accepted : Bool) {resp : Response}
      (herror : resp.error.isSome = true) :
    Step runId σ { σ with
      phase := .idle
      calls := σ.calls + 1
      accepted := σ.accepted + accepted.toNat
      unmarked := σ.unmarked + accepted.toNat }
  /-- It is called and confirms. -/
  | confirm {σ : State} (h : σ.phase = .calling) (accepted : Bool) {resp : Response}
      (hok : resp.error = none) :
    Step runId σ { σ with
      phase := .confirmed accepted resp.messageId
      calls := σ.calls + 1
      accepted := σ.accepted + accepted.toNat }
  /-- `mark_sent` commits, and the execution returns. -/
  | mark {σ : State} {accepted : Bool} {messageId : Option String}
      (h : σ.phase = .confirmed accepted messageId) :
    Step runId σ { σ with
      rows := markSent σ.rows (deriveIdempotencyKey "email_send" runId) messageId
      phase := .idle }
  /-- The execution is cut off, by a crash, a timeout or an exception. -/
  | cut {σ : State} :
    Step runId σ { σ with
      phase := .idle
      unmarked := σ.unmarked + match σ.phase with
        | .confirmed accepted _ => accepted.toNat
        | _ => 0 }
  /-- Runs with other keys write their rows. -/
  | others {σ : State} {rows : List SendIntent}
      (h : intent rows (deriveIdempotencyKey "email_send" runId) =
        intent σ.rows (deriveIdempotencyKey "email_send" runId)) :
    Step runId σ { σ with rows := rows }

/-- The states that steps reach from `σ`. -/
inductive Steps (runId : Nat) (σ : State) : State → Prop
  | refl : Steps runId σ σ
  | step {σ₁ σ₂ : State} : Steps runId σ σ₁ → Step runId σ₁ σ₂ → Steps runId σ σ₂

/-- A run starts with no intent of its own. -/
def Initial (runId : Nat) (σ : State) : Prop :=
  ∃ rows, intent rows (deriveIdempotencyKey "email_send" runId) = none ∧ σ = { rows := rows }

/-! ### The bound -/

theorem intent_markSent {rows : List SendIntent} {key : String} {row : SendIntent}
    (h : intent rows key = some row) (messageId : Option String) :
    (intent (markSent rows key messageId) key).map (·.status) = some .sent := by
  induction rows with
  | nil => cases h
  | cons r rows ih =>
    simp only [intent, markSent, List.map_cons, List.find?_cons] at h ih ⊢
    by_cases hkey : (r.idempotencyKey == key) = true
    · simp [hkey]
    · simp only [hkey, Bool.false_eq_true, if_false] at h ⊢
      exact ih h

/-- The row of the key after the gate was opened. -/
theorem intent_begin (rows : List SendIntent) (key : String) (runId : Nat) :
    ∃ row, intent (begin_ rows key runId).1 key = some row ∧
      ((begin_ rows key runId).2.decision = .skip ↔ row.status = .sent) := by
  unfold begin_
  cases hrow : intent rows key with
  | none =>
    refine ⟨⟨key, runId, .attempting, none⟩, ?_, by simp⟩
    unfold intent at hrow ⊢
    rw [List.find?_append, hrow]
    simp
  | some row =>
    refine ⟨row, hrow, ?_⟩
    cases hs : row.status <;> simp [hs, decideSend]

/-- A message that was accepted is counted as unmarked, is about to be marked, or is the one behind
the mark; past the gate the row is there and has no mark. -/
structure Sound (key : String) (σ : State) : Prop where
  count : σ.accepted ≤ σ.unmarked + (match σ.phase with
    | .confirmed accepted _ => accepted.toNat
    | _ => 0) + if σ.marked key then 1 else 0
  gate : σ.phase = .calling ∨ (∃ accepted messageId, σ.phase = .confirmed accepted messageId) →
    ∃ row, intent σ.rows key = some row ∧ row.status = .attempting

theorem Sound.not_marked {key : String} {σ : State} (h : Sound key σ)
    (hphase : σ.phase = .calling ∨ ∃ accepted messageId, σ.phase = .confirmed accepted messageId) :
    ¬σ.marked key := by
  obtain ⟨row, hrow, hs⟩ := h.gate hphase
  simp [State.marked, hrow, hs]

theorem Sound.step {runId : Nat} {σ σ' : State}
    (h : Sound (deriveIdempotencyKey "email_send" runId) σ) (hstep : Step runId σ σ') :
    Sound (deriveIdempotencyKey "email_send" runId) σ' := by
  generalize hkey : deriveIdempotencyKey "email_send" runId = key at h
  have hcount := h.count
  cases hstep with
  | start hphase | refuse hphase =>
    simp only [hphase] at hcount
    exact ⟨hcount, by simp⟩
  | begin_ hphase =>
    rw [hkey]
    simp only [hphase, Nat.add_zero] at hcount
    obtain ⟨row, hrow, hskip⟩ := intent_begin σ.rows key runId
    -- the gate keeps a mark, and a mark closes it
    have hmark : σ.marked key → row.status = .sent := by
      intro hm
      unfold State.marked at hm
      unfold begin_ at hrow
      cases hold : intent σ.rows key with
      | none => simp [hold] at hm
      | some old =>
        simp only [hold] at hrow hm
        cases hrow
        simpa using hm
    have hafter : ∀ phase : Phase,
        State.marked { σ with rows := (begin_ σ.rows key runId).1, phase := phase } key ↔
        row.status = .sent := by
      intro phase
      simp [State.marked, hrow]
    by_cases hs : row.status = .sent
    · rw [if_pos (hskip.mpr hs)]
      refine ⟨?_, by simp⟩
      rw [if_pos ((hafter _).mpr hs)]
      split at hcount <;> simp only <;> omega
    · rw [if_neg (fun h => hs (hskip.mp h))]
      rw [if_neg fun hm => hs (hmark hm)] at hcount
      refine ⟨?_, fun _ => ⟨row, hrow, ?_⟩⟩
      · simp only
        omega
      · cases hst : row.status with
        | attempting => rfl
        | sent => exact absurd hst hs
  | noAnswer hphase accepted | errorAnswer hphase accepted herror =>
    rw [if_neg (h.not_marked (.inl hphase))] at hcount
    simp only [hphase] at hcount
    refine ⟨?_, by simp⟩
    simp only
    omega
  | @confirm hphase accepted resp hok =>
    rw [if_neg (h.not_marked (.inl hphase))] at hcount
    simp only [hphase] at hcount
    refine ⟨?_, fun _ => h.gate (.inl hphase)⟩
    simp only
    omega
  | @mark accepted messageId hphase =>
    rw [hkey]
    rw [if_neg (h.not_marked (.inr ⟨_, _, hphase⟩))] at hcount
    obtain ⟨row, hrow, -⟩ := h.gate (.inr ⟨_, _, hphase⟩)
    have hm : State.marked { σ with rows := markSent σ.rows key messageId, phase := .idle } key :=
      intent_markSent hrow messageId
    simp only [hphase] at hcount
    refine ⟨?_, by simp⟩
    rw [if_pos hm]
    have : accepted.toNat ≤ 1 := Bool.toNat_le accepted
    simp only
    omega
  | cut =>
    refine ⟨?_, by simp⟩
    change σ.accepted ≤ σ.unmarked + _ + 0 + if σ.marked key then 1 else 0
    omega
  | @others rows hrows =>
    rw [hkey] at hrows
    refine ⟨?_, fun hphase => hrows ▸ h.gate hphase⟩
    have : State.marked { σ with rows := rows } key ↔ σ.marked key := by
      simp [State.marked, hrows]
    simpa only [this] using hcount

theorem Sound.steps {runId : Nat} {σ₀ σ : State} (hinit : Initial runId σ₀)
    (h : Steps runId σ₀ σ) : Sound (deriveIdempotencyKey "email_send" runId) σ := by
  induction h with
  | refl =>
    obtain ⟨rows, hrows, rfl⟩ := hinit
    exact ⟨Nat.zero_le _, by simp⟩
  | step _ hstep ih => exact ih.step hstep

/-- Between executions and once the key is marked, it stays so and the gate lets none through. -/
theorem closed_step {runId calls : Nat} {σ σ' : State}
    (h : σ.marked (deriveIdempotencyKey "email_send" runId) ∧
      (σ.phase = .idle ∨ σ.phase = .started) ∧ σ.calls = calls)
    (hstep : Step runId σ σ') :
    σ'.marked (deriveIdempotencyKey "email_send" runId) ∧
      (σ'.phase = .idle ∨ σ'.phase = .started) ∧ σ'.calls = calls := by
  obtain ⟨hm, hphase, hcalls⟩ := h
  cases hstep with
  | start h => exact ⟨hm, .inr rfl, hcalls⟩
  | refuse h => exact ⟨hm, .inl rfl, hcalls⟩
  | begin_ h =>
    -- the row is there and says that the message is sent
    have hbegin : begin_ σ.rows (deriveIdempotencyKey "email_send" runId) runId =
        (σ.rows, ⟨.skip, ((intent σ.rows (deriveIdempotencyKey "email_send" runId)).bind
          (·.providerMessageId))⟩) := by
      unfold State.marked at hm
      cases hrow : intent σ.rows (deriveIdempotencyKey "email_send" runId) with
      | none => simp [hrow] at hm
      | some row =>
        simp only [hrow, Option.map_some, Option.some.injEq] at hm
        simp [begin_, hrow, hm, decideSend]
    rw [hbegin]
    exact ⟨hm, .inl rfl, hcalls⟩
  | noAnswer h | errorAnswer h | confirm h =>
    rcases hphase with hp | hp <;> rw [hp] at h <;> cases h
  | mark h =>
    rcases hphase with hp | hp <;> rw [hp] at h <;> cases h
  | cut => exact ⟨hm, .inl rfl, hcalls⟩
  | others hrows =>
    refine ⟨?_, hphase, hcalls⟩
    unfold State.marked at hm ⊢
    rw [hrows]
    exact hm

/-- The provider has accepted at most one message beside those of the executions that ended between
its acceptance and their mark; and an execution that starts after a mark does not call it. -/
theorem accepted_bounded {runId : Nat} {σ₀ σ : State} (hinit : Initial runId σ₀)
    (h : Steps runId σ₀ σ) :
    σ.accepted ≤ 1 + σ.unmarked ∧
      (σ.marked (deriveIdempotencyKey "email_send" runId) → σ.phase = .idle →
        ∀ σ', Steps runId σ σ' → σ'.calls = σ.calls) := by
  have hsound := Sound.steps hinit h
  refine ⟨?_, fun hm hidle σ' hsteps => ?_⟩
  · have hcount := hsound.count
    -- a message that is about to be marked excludes the mark
    cases hphase : σ.phase with
    | confirmed accepted messageId =>
      rw [if_neg (hsound.not_marked (.inr ⟨_, _, hphase⟩)), hphase] at hcount
      have : accepted.toNat ≤ 1 := Bool.toNat_le accepted
      simp only at hcount
      omega
    | idle | started | calling =>
      simp only [hphase] at hcount
      split at hcount <;> omega
  · have hclosed : σ'.marked (deriveIdempotencyKey "email_send" runId) ∧
        (σ'.phase = .idle ∨ σ'.phase = .started) ∧ σ'.calls = σ.calls := by
      induction hsteps with
      | refl => exact ⟨hm, .inl hidle, rfl⟩
      | step _ hstep ih => exact closed_step ih hstep
    exact hclosed.2.2

/-- A first execution is cut off after the provider accepted, a second one is confirmed and marked,
and a third one is skipped. -/
theorem accepted_twice :
    (2 : Nat) ≤ 1 + 1 ∧ ∃ σ' : State, σ'.calls = 2 ∧
      σ'.marked (deriveIdempotencyKey "email_send" 7) := by
  have hinit : Initial 7 { rows := [] } := ⟨[], rfl, rfl⟩
  have h₁ : Steps 7 { rows := [] } ⟨[⟨"email_send:7", 7, .attempting, none⟩], .idle, 1, 1, 1⟩ :=
    .step (.step (.step .refl (.start rfl)) (.begin_ rfl)) (.noAnswer rfl true)
  have h₂ : Steps 7 { rows := [] } ⟨[⟨"email_send:7", 7, .sent, some "m"⟩], .idle, 2, 2, 1⟩ :=
    .step (.step (.step (.step h₁ (.start rfl)) (.begin_ rfl))
      (@Step.confirm 7 _ rfl true ⟨200, "", some "m"⟩ (by decide))) (.mark rfl)
  have h₃ : Steps 7 ⟨[⟨"email_send:7", 7, .sent, some "m"⟩], .idle, 2, 2, 1⟩
      ⟨[⟨"email_send:7", 7, .sent, some "m"⟩], .idle, 2, 2, 1⟩ :=
    .step (.step .refl (.start rfl)) (.begin_ rfl)
  obtain ⟨hbound, hclosed⟩ := accepted_bounded hinit h₂
  exact ⟨hbound, _, hclosed (by decide) rfl _ h₃, by decide⟩

end TaskScheduler.Email
