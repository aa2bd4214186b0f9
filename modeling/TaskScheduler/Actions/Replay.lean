import TaskScheduler.Actions.Handler

/-! The replay of an `email_send` whose intent is marked as sent.  The gate keeps it from sending
again; but it stands behind the body, the connection and the message, and the replay is a success
exactly where these are still there. -/

namespace TaskScheduler.Email

open Connections Lib

variable {Blob : Type} {env : Env Blob} {run : Run} {params : EmailSendParams} {w : World Blob}

/-! ### The execution as steps -/

/-- What the steps of one run see of the world. -/
def World.state (w : World Blob) (accepted unmarked : Nat) : State where
  rows := w.intents
  calls := w.sends.length
  accepted := accepted
  unmarked := unmarked

theorem sendViaGmail_cases (env : Env Blob) (run : Run) (params : EmailSendParams)
    (bodyText : PyStr) (w : World Blob) :
    (∃ outcome connections, sendViaGmail env run params bodyText w =
      (outcome, { w with connections := connections })) ∨
    ∃ raw connections, sendViaGmail env run params bodyText w =
      sendOnce env run params raw { w with connections := connections } := by
  unfold sendViaGmail
  dsimp only
  split
  · exact .inl ⟨_, _, rfl⟩
  · exact .inl ⟨_, _, rfl⟩
  · exact .inl ⟨_, _, rfl⟩
  · split
    · exact .inl ⟨_, _, rfl⟩
    · exact .inr ⟨_, _, rfl⟩

/-- An execution ends before the gate, or goes through it. -/
theorem execute_cases (env : Env Blob) (run : Run) (params : EmailSendParams) (w : World Blob) :
    (∃ outcome connections, execute env run params w =
      (outcome, { w with connections := connections })) ∨
    ∃ raw connections, execute env run params w =
      sendOnce env run params raw { w with connections := connections } := by
  unfold execute
  split
  · exact .inl ⟨_, _, rfl⟩
  · exact sendViaGmail_cases env run params _ w

/-- Past the gate, the provider is called once. -/
theorem callGmail_steps (env : Env Blob) (run : Run) (params : EmailSendParams) (raw : String)
    (w : World Blob) (accepted unmarked : Nat) :
    ∃ unmarked', Steps run.runId { w.state accepted unmarked with phase := .calling }
      ((callGmail env run params raw w).2.state accepted unmarked') := by
  unfold callGmail World.state
  dsimp only
  split
  · exact ⟨unmarked, .step .refl (by simpa using Step.noAnswer rfl false)⟩
  · exact ⟨unmarked, .step .refl (by simpa using Step.noAnswer rfl false)⟩
  · next resp _ =>
    split
    · next heq =>
      have herror : resp.error.isSome = true := by
        rw [heq]
        rfl
      exact ⟨unmarked, .step .refl (by simpa using Step.errorAnswer rfl false herror)⟩
    · next heq =>
      refine ⟨unmarked, .step (.step .refl (Step.confirm rfl false heq)) ?_⟩
      simpa using Step.mark rfl

/-- The steps of one run, one path after the other. -/
theorem Steps.trans {runId : Nat} {σ σ₁ σ₂ : State} (h : Steps runId σ σ₁)
    (h' : Steps runId σ₁ σ₂) : Steps runId σ σ₂ := by
  induction h' with
  | refl => exact h
  | step _ hstep ih => exact .step ih hstep

/-- An execution is a path of the steps that bound the messages of a run. -/
theorem execute_steps (env : Env Blob) (run : Run) (params : EmailSendParams) (w : World Blob)
    (accepted unmarked : Nat) : ∃ unmarked', Steps run.runId (w.state accepted unmarked)
      ((execute env run params w).2.state accepted unmarked') := by
  obtain ⟨outcome, connections, h⟩ | ⟨raw, connections, h⟩ := execute_cases env run params w
  · rw [h]
    exact ⟨unmarked, .step (.step .refl (.start rfl)) (.refuse rfl)⟩
  · rw [h]
    -- the gate commits its row, whatever it decides
    have hgate : Steps run.runId (w.state accepted unmarked)
        ⟨(begin_ w.intents (deriveIdempotencyKey "email_send" run.runId) run.runId).1,
          if (begin_ w.intents (deriveIdempotencyKey "email_send" run.runId)
            run.runId).2.decision = .skip then .idle else .calling,
          w.sends.length, accepted, unmarked⟩ :=
      .step (.step .refl (.start rfl)) (.begin_ rfl)
    unfold sendOnce
    dsimp only
    split
    · next hskip =>
      rw [if_pos hskip] at hgate
      exact ⟨unmarked, hgate⟩
    · next hskip =>
      rw [if_neg hskip] at hgate
      obtain ⟨unmarked', hcall⟩ := callGmail_steps env run params raw
        { w with
          connections := connections
          intents := (begin_ w.intents (deriveIdempotencyKey "email_send" run.runId) run.runId).1 }
        accepted unmarked
      exact ⟨unmarked', hgate.trans hcall⟩

/-! ### The gate of a replay -/

/-- The intent of the run is marked as sent, with this id of the provider. -/
def Sent (w : World Blob) (runId : Nat) (messageId : Option String) : Prop :=
  ∃ row, intent w.intents (deriveIdempotencyKey "email_send" runId) = some row ∧
    row.status = .sent ∧ row.providerMessageId = messageId

theorem sendOnce_sent {messageId : Option String} (h : Sent w run.runId messageId) (raw : String) :
    sendOnce env run params raw w = (.returned (okResult params messageId true), w) := by
  obtain ⟨row, hrow, hsent, rfl⟩ := h
  simp [sendOnce, begin_, hrow, hsent, decideSend]

/-- However a replay ends, the provider is left alone. -/
theorem replay_sends {messageId : Option String} (h : Sent w run.runId messageId) :
    (execute env run params w).2.sends = w.sends := by
  obtain ⟨outcome, connections, heq⟩ | ⟨raw, connections, heq⟩ := execute_cases env run params w
  · rw [heq]
  · have hsent : Sent { w with connections := connections } run.runId messageId := h
    rw [heq, sendOnce_sent hsent]

/-! ### The body -/

/-- What `read_upstream` finds in the tables. -/
def upstreamPayload (loads : String → Option PyJson) (tables : Tables) (runId : Int)
    (userId : String) : UpstreamPayload PyJson :=
  match (tables.runs.filter fun r => (r.runId : Int) == runId && r.userId == userId).head? with
  | none => .noResult
  | some upstream =>
    match upstream.result with
    | some result => (loads result).elim (.invalidJson result) .ok
    | none =>
      if upstream.errorMessage.getD "" = "" then .noResult
      else .upstreamError (upstream.errorMessage.getD "")

theorem run_selectRuns {α : Type} (pick : Nat → Bool) (others : List Session) (committed : Tables)
    (p : JobRun → Bool) (f : List JobRun → Txn α) (d : Seq × Session) :
    (Txn.selectRuns p >>= f).run (Stmt.exec pick others committed) d =
      (f ((d.2.view committed).runs.filter p)).run (Stmt.exec pick others committed) d :=
  rfl

theorem readUpstream_run (loads : String → Option PyJson) (start : Int) (pick : Nat → Bool)
    (db : Db) (runId : Nat) (userId : String) :
    (readUpstream loads runId userId).run (Stmt.exec pick [] db.tables) (db.seq, { start }) =
      some (.ok (upstreamPayload loads db.tables runId userId), db.seq, { start }) := by
  have hid : (fun r : JobRun => (r.runId : Int) == (runId : Int) && r.userId == userId) =
      fun r => r.runId == runId && r.userId == userId := by
    funext r
    congr 1
    rw [Bool.eq_iff_iff, beq_iff_eq, beq_iff_eq, Int.ofNat_inj]
  unfold readUpstream upstreamPayload
  rw [hid, run_selectRuns]
  simp only [Session.view, Write.applyAll_nil]
  cases (db.tables.runs.filter fun r => r.runId == runId && r.userId == userId).head? with
  | none => rfl
  | some upstream =>
    dsimp only
    cases upstream.result with
    | none => by_cases herror : upstream.errorMessage.getD "" = "" <;> simp [herror, Program.run]
    | some result => cases hloads : loads result <;> simp [hloads, Program.run]

theorem readUpstream_alone (loads : String → Option PyJson) (start : Int) (pick : Nat → Bool)
    (db : Db) (runId : Nat) (userId : String) :
    ∃ db', db.alone start pick (readUpstream loads runId userId) =
      some (.ok (upstreamPayload loads db.tables runId userId), db') :=
  ⟨_, by simp only [Db.alone, readUpstream_run]; rfl⟩

/-- The body that the handler builds now: the result of the upstream run as it is displayed, or the
body of the parameters. -/
def Body (env : Env Blob) (tables : Tables) (userId : String) (params : EmailSendParams)
    (text : PyStr) : Prop :=
  match params.fromRunId with
  | some id =>
    -2 ^ 63 ≤ id ∧ id < 2 ^ 63 ∧
      text = resolveForDisplay (templateFormatter env.printable (params.template.getD .raw))
        (if id < 0 then .noResult else upstreamPayload env.loads tables id userId)
  | none => ∃ body, params.body = some body ∧ text = PyStr.ofString body

theorem bodyFromUpstream_eq (db : Db) (userId : String) {id : Int} (hlow : -2 ^ 63 ≤ id)
    (hhigh : id < 2 ^ 63) (formatter : PyJson → Bool → PyStr) :
    bodyFromUpstream env db userId id formatter = .ok (resolveForDisplay formatter
      (if id < 0 then .noResult else upstreamPayload env.loads db.tables id userId)) := by
  unfold bodyFromUpstream
  rw [if_neg (by omega)]
  split
  · rfl
  · next hpos =>
    obtain ⟨db', hread⟩ := readUpstream_alone env.loads env.start env.pick db id.toNat userId
    rw [Int.toNat_of_nonneg (by omega)] at hread
    rw [hread]

theorem buildBody_ok (env : Env Blob) (db : Db) (userId : String) (params : EmailSendParams)
    (text : PyStr) :
    buildBody env db userId params = .ok text ↔ Body env db.tables userId params text := by
  unfold buildBody Body
  cases params.fromRunId with
  | some id =>
    dsimp only
    by_cases hrange : id < -2 ^ 63 ∨ 2 ^ 63 ≤ id
    · unfold bodyFromUpstream
      rw [if_pos hrange]
      refine ⟨nofun, fun ⟨hlow, hhigh, _⟩ => ?_⟩
      omega
    · push Not at hrange
      rw [bodyFromUpstream_eq db userId hrange.1 hrange.2, Except.ok.injEq]
      exact ⟨fun h => ⟨hrange.1, hrange.2, h.symm⟩, fun h => h.2.2.symm⟩
  | none =>
    cases params.body with
    | some body => simp [eq_comm]
    | none => simp

/-! ### The connection -/

/-- The row with this token data yields a token after these refreshes: the one that it holds, or,
inside the refresh window, one from a refresh that goes through. -/
def Yields (env : Env Blob) (now : Int) (r : OAuthConnection Blob) (tokenData : JsonObject)
    (refreshed : List (JsonObject × Option JsonObject)) : Prop :=
  if needsRefresh r.expiresAt refreshWindow now then
    ∃ d, makeGoogleRefresher env.endpoint refreshed tokenData = some d ∧ Goes env.fromisoformat d
  else ∃ token, accessToken tokenData = .ok token

/-- The refreshes after a session has read the row. -/
def refreshedAfter (env : Env Blob) (now : Int) (r : OAuthConnection Blob) (tokenData : JsonObject)
    (refreshed : List (JsonObject × Option JsonObject)) : List (JsonObject × Option JsonObject) :=
  if needsRefresh r.expiresAt refreshWindow now then
    refreshed ++ [(tokenData, makeGoogleRefresher env.endpoint refreshed tokenData)]
  else refreshed

/-- The Google connection of the user is there and yields a token, and does so before if it has
expired when it is checked. -/
def Connected (env : Env Blob) (userId : String) (w : Connections.World Blob) : Prop :=
  ∃ envelope r tokenData, env.envelope = some envelope ∧
    loadRow w.committed userId "google" = some r ∧
    envelope.decrypt r.encryptedBlob = some tokenData ∧
    if r.expiresAt.any fun t => decide (t ≤ env.now) then
      Yields env env.now' r tokenData w.refreshed ∧ Yields env env.now'' r tokenData
        (refreshedAfter env env.now' r tokenData w.refreshed)
    else Yields env env.now'' r tokenData w.refreshed

variable {envelope : KmsEnvelope Blob} {r : OAuthConnection Blob} {tokenData : JsonObject}
  {userId provider : String} {cw : Connections.World Blob}

/-- One session on a row that decrypts. -/
theorem getToken_row (env : Env Blob)
    (hrow : loadRow cw.committed userId provider = some r)
    (ht : envelope.decrypt r.encryptedBlob = some tokenData) (now : Int) (nonce : Nat) :
    ((∃ token, (getToken (some envelope) env.fromisoformat
      (some (makeGoogleRefresher env.endpoint)) refreshWindow now nonce userId provider
      cw).1 = .ok token) ↔ Yields env now r tokenData cw.refreshed) ∧
    (getToken (some envelope) env.fromisoformat (some (makeGoogleRefresher env.endpoint))
      refreshWindow now nonce userId provider cw).2.refreshed =
        refreshedAfter env now r tokenData cw.refreshed := by
  unfold Yields refreshedAfter
  by_cases hneeds : needsRefresh r.expiresAt refreshWindow now = true
  · rw [if_pos hneeds, if_pos hneeds]
    exact ⟨(getToken_refreshes ⟨r, hrow, ht, hneeds⟩).2,
      (getToken_refreshes ⟨r, hrow, ht, hneeds⟩).1⟩
  · rw [if_neg hneeds, if_neg hneeds]
    simp only [getToken, inSession, getFreshToken, hrow, ht]
    rw [if_neg hneeds]
    exact ⟨Iff.rfl, rfl⟩

/-- No session returns a token of a row that is not there or does not decrypt. -/
theorem getToken_none (h : ∀ r tokenData, loadRow cw.committed userId provider = some r →
      envelope.decrypt r.encryptedBlob ≠ some tokenData) (refresher : Option TokenRefresher)
    (window now : Int) (nonce : Nat) :
    ∀ token, (getToken (some envelope) env.fromisoformat refresher window now nonce userId provider
      cw).1 ≠ .ok token := by
  intro token
  simp only [getToken, inSession, getFreshToken]
  split
  · simp
  · next r hrow =>
    split
    · simp
    · next tokenData ht => exact absurd ht (h r tokenData hrow)

/-- A token comes out of the check and the fetch. -/
theorem gmailToken_of_check {refresher : TokenRefresher} {window now now' now'' : Int}
    {nonce nonce' : Nat} {fromisoformat : String → Option Int}
    {envelope : Option (KmsEnvelope Blob)} (hu : userId ≠ "") :
    (∃ token, (gmailToken envelope fromisoformat refresher window now now' now'' nonce nonce' userId
      cw).1 = .token token) ↔
    (checkOauthForExecute envelope fromisoformat (some refresher) window now now' nonce userId
      "google" cw).1 = true ∧
    ∃ token, (getToken envelope fromisoformat (some refresher) window now'' nonce' userId "google"
      (checkOauthForExecute envelope fromisoformat (some refresher) window now now' nonce userId
        "google" cw).2).1 = .ok token := by
  unfold gmailToken
  rw [if_neg hu]
  rcases checkOauthForExecute envelope fromisoformat (some refresher) window now now' nonce userId
    "google" cw with ⟨proceeds, w₁⟩
  cases proceeds with
  | false => simp
  | true =>
    dsimp only
    rcases getToken envelope fromisoformat (some refresher) window now'' nonce' userId "google" w₁
      with ⟨res, w₂⟩
    cases res with
    | ok token => simp
    | error e => cases e <;> simp

/-- The check lets a row that has not expired through. -/
theorem check_passes {refresher : Option TokenRefresher} {window now now' : Int} {nonce : Nat}
    (hrow : loadRow cw.committed userId provider = some r)
    (hfresh : ¬(r.expiresAt.any fun t => decide (t ≤ now)) = true) :
    checkOauthForExecute (some envelope) env.fromisoformat refresher window now now' nonce userId
      provider cw = (true, cw) := by
  simp only [checkOauthForExecute, hrow]
  rw [if_neg hfresh]

/-- The handler has a token to send with exactly where the connection is there. -/
theorem gmailToken_connected (hu : userId ≠ "") :
    (∃ token, (gmailToken env.envelope env.fromisoformat (makeGoogleRefresher env.endpoint)
      refreshWindow env.now env.now' env.now'' env.nonce env.nonce' userId cw).1 = .token token) ↔
    Connected env userId cw := by
  rw [gmailToken_of_check hu]
  unfold Connected
  cases henv : env.envelope with
  | none =>
    simp only [checkOauthForExecute, getToken]
    split <;> simp
  | some envelope =>
    have hcommitted := @checkOauthForExecute_committed _ env.fromisoformat refreshWindow
      (some envelope) (some (makeGoogleRefresher env.endpoint)) env.now env.now' env.nonce userId
      "google" cw
    by_cases hthere : ∃ r tokenData, loadRow cw.committed userId "google" = some r ∧
        envelope.decrypt r.encryptedBlob = some tokenData
    · obtain ⟨r, tokenData, hrow, ht⟩ := hthere
      have hunique : ∀ p : OAuthConnection Blob → JsonObject → Prop,
          (∃ e r' t', some envelope = some e ∧ loadRow cw.committed userId "google" = some r' ∧
            e.decrypt r'.encryptedBlob = some t' ∧ p r' t') ↔ p r tokenData := by
        intro p
        constructor
        · rintro ⟨e, r', t', he, hr', ht', hp⟩
          cases he
          rw [hrow] at hr'
          cases hr'
          rw [ht] at ht'
          cases ht'
          exact hp
        · exact fun hp => ⟨envelope, r, tokenData, rfl, hrow, ht, hp⟩
      rw [hunique fun r tokenData => if r.expiresAt.any fun t => decide (t ≤ env.now) then
        Yields env env.now' r tokenData cw.refreshed ∧ Yields env env.now'' r tokenData
          (refreshedAfter env env.now' r tokenData cw.refreshed)
        else Yields env env.now'' r tokenData cw.refreshed]
      by_cases hexpired : (r.expiresAt.any fun t => decide (t ≤ env.now)) = true
      · rw [if_pos hexpired]
        -- the check is itself a fetch, and the second one reads the row that it left
        have hcheck := @check_expired _ envelope env.fromisoformat refreshWindow cw
          (makeGoogleRefresher env.endpoint) env.now env.now' env.nonce userId "google"
          ⟨r, hrow, hexpired⟩
        have hfirst := getToken_row env hrow ht env.now' env.nonce
        rw [← hcommitted] at hrow
        have hsecond := (getToken_row env hrow ht env.now'' env.nonce').1
        rw [hcheck.2, hfirst.1, hsecond, hcheck.1, hfirst.2]
      · rw [if_neg hexpired, check_passes hrow hexpired]
        simp only [true_and]
        exact (getToken_row env hrow ht _ _).1
    · constructor
      · rintro ⟨-, token, htoken⟩
        refine absurd htoken (getToken_none (fun r tokenData hrow ht => ?_) _ _ _ _ token)
        rw [hcommitted] at hrow
        exact hthere ⟨r, tokenData, hrow, ht⟩
      · rintro ⟨e, r, tokenData, he, hrow, ht, -⟩
        cases he
        exact absurd ⟨r, tokenData, hrow, ht⟩ hthere

/-! ### The replay -/

/-- What lets a replay through to the gate: the run has a user, whose connection is there, and the
parameters still make a message. -/
structure Replayable (env : Env Blob) (run : Run) (params : EmailSendParams) (w : World Blob) :
    Prop where
  user : run.userId ≠ ""
  connected : Connected env run.userId w.connections
  message : ∃ text, Body env w.db.tables run.userId params text ∧
    (env.mime params.to_ (safeSubject params.subject) text).isSome = true

/-- The handler returns the success of the first send, marked as deduplicated, and posts nothing. -/
structure NoopSuccess (messageId : Option String) (w : World Blob) (end_ : Outcome × World Blob) :
    Prop where
  returned : ∃ res sent, end_.1 = .returned res ∧ res.ok = true ∧ res.result = some sent ∧
    sent.providerMessageId = messageId ∧ sent.deduped = true
  sends : end_.2.sends = w.sends

/-- An execution that does not return a success is none. -/
theorem NoopSuccess.ok {messageId : Option String} {end_ : Outcome × World Blob}
    {res : ActionResult} (h : NoopSuccess messageId w end_) (hres : end_.1 = .returned res) :
    res.ok = true := by
  obtain ⟨res', _, hres', hok, -⟩ := h.returned
  rw [hres] at hres'
  cases hres'
  exact hok

theorem NoopSuccess.not_raised {messageId : Option String} {end_ : Outcome × World Blob}
    (h : NoopSuccess messageId w end_) : end_.1 ≠ .raised := by
  obtain ⟨_, _, hres, -⟩ := h.returned
  rw [hres]
  simp

theorem sendViaGmail_replay {messageId : Option String} (h : Sent w run.runId messageId)
    (text : PyStr) :
    NoopSuccess messageId w (sendViaGmail env run params text w) ↔
      run.userId ≠ "" ∧ Connected env run.userId w.connections ∧
        (env.mime params.to_ (safeSubject params.subject) text).isSome = true := by
  by_cases hu : run.userId = ""
  · refine ⟨fun hnoop => ?_, fun hmet => absurd hu hmet.1⟩
    have hres : (sendViaGmail env run params text w).1 = .returned
        { ok := false, result := none, retryable := false,
          error := some ("email_send: no user_id on run — cannot resolve Google " ++
            "connection") } := by
      simp only [sendViaGmail, gmailToken, if_pos hu]
    exact absurd (hnoop.ok hres) (by decide)
  · rw [← gmailToken_connected hu]
    unfold sendViaGmail
    dsimp only
    generalize gmailToken env.envelope env.fromisoformat (makeGoogleRefresher env.endpoint)
      refreshWindow env.now env.now' env.now'' env.nonce env.nonce' run.userId w.connections = got
    obtain ⟨token, connections⟩ := got
    have hsent : Sent { w with connections := connections } run.runId messageId := h
    cases token with
    | token t =>
      dsimp only
      cases hmime : env.mime params.to_ (safeSubject params.subject) text with
      | none =>
        exact ⟨fun hnoop => absurd rfl hnoop.not_raised, fun hmet => absurd hmet.2.2 (by simp)⟩
      | some raw =>
        dsimp only
        rw [sendOnce_sent hsent]
        exact ⟨fun _ => ⟨hu, ⟨t, rfl⟩, rfl⟩, fun _ => ⟨⟨_, _, rfl, rfl, rfl, rfl, rfl⟩, rfl⟩⟩
    | noUser =>
      refine ⟨fun hnoop => absurd (hnoop.ok rfl) (by decide), ?_⟩
      rintro ⟨-, ⟨t, ht⟩, -⟩
      cases ht
    | missingConnection =>
      refine ⟨fun hnoop => absurd (hnoop.ok rfl) (by simp [missingConnectionResult]), ?_⟩
      rintro ⟨-, ⟨t, ht⟩, -⟩
      cases ht
    | raised e =>
      refine ⟨fun hnoop => absurd rfl hnoop.not_raised, ?_⟩
      rintro ⟨-, ⟨t, ht⟩, -⟩
      cases ht

/-- No body, no success. -/
theorem buildBody_refuses {db : Db} {messageId : Option String} {outcome : Outcome}
    (h : buildBody env db run.userId params = .error outcome) (w : World Blob) :
    ¬NoopSuccess messageId w (outcome, w) := by
  intro hnoop
  unfold buildBody at h
  dsimp only at h
  split at h
  · unfold bodyFromUpstream at h
    split at h
    · cases h
      exact hnoop.not_raised rfl
    · split at h
      · cases h
      · split at h <;> cases h
        exact hnoop.not_raised rfl
  · split at h <;> cases h
    exact absurd (hnoop.ok rfl) (by simp)

/-- However it ends, the replay of a run that is marked as sent calls no provider; it is the success
of the first send exactly where it gets to the gate. -/
theorem replay_noop_iff (env : Env Blob) (run : Run) (params : EmailSendParams) (w : World Blob)
    (messageId : Option String) (h : Sent w run.runId messageId) :
    (execute env run params w).2.sends = w.sends ∧
      (NoopSuccess messageId w (execute env run params w) ↔ Replayable env run params w) := by
  refine ⟨replay_sends h, ?_⟩
  unfold execute
  cases hbody : buildBody env w.db run.userId params with
  | error outcome =>
    refine ⟨fun hnoop => absurd hnoop (buildBody_refuses hbody w), ?_⟩
    rintro ⟨-, -, text, htext, -⟩
    rw [← buildBody_ok, hbody] at htext
    cases htext
  | ok text =>
    dsimp only
    rw [sendViaGmail_replay h]
    constructor
    · rintro ⟨hu, hc, hmime⟩
      exact ⟨hu, hc, text, (buildBody_ok _ _ _ _ _).mp hbody, hmime⟩
    · rintro ⟨hu, hc, text', htext, hmime⟩
      rw [← buildBody_ok, hbody] at htext
      cases htext
      exact ⟨hu, hc, hmime⟩

/-! ### One replay -/

/-- A replay at noon, with a KMS that hides nothing and a mail library that takes every message. -/
def noonEnv : Env JsonObject where
  printable := ⟨fun _ => false, fun _ _ => rfl⟩
  loads _ := none
  mime to_ subject _ := some (", ".intercalate to_ ++ subject)
  envelope := some plainEnvelope
  fromisoformat _ := none
  connectionsBaseUrl := ""
  endpoint := ⟨fun _ => true, fun _ _ => none, fun _ _ => none⟩
  answer := .requestError ""
  start := 0
  pick _ := true
  now := 0
  now' := 0
  now'' := 0
  nonce := 0
  nonce' := 0

/-- Run 7 of Ann is marked as sent, and these are the connections. -/
def sentWorld (rows : List (OAuthConnection JsonObject)) : World JsonObject where
  db := {}
  connections := { committed := rows }
  intents := [⟨"email_send:7", 7, .sent, some "m"⟩]

def helloParams : EmailSendParams := ⟨["bob@example.com"], "Hello", some "Hi", none, none⟩

/-- With her connection, the replay is the success of the first send. -/
theorem connected_noop : NoopSuccess (some "m")
    (sentWorld [⟨"ann", "google", [("access_token", .str "t")], none⟩])
    (execute noonEnv ⟨7, "ann"⟩ helloParams
      (sentWorld [⟨"ann", "google", [("access_token", .str "t")], none⟩])) :=
  (replay_noop_iff noonEnv ⟨7, "ann"⟩ helloParams _ (some "m")
    ⟨⟨"email_send:7", 7, .sent, some "m"⟩, by decide, rfl, rfl⟩).2.mpr
    ⟨by decide, ⟨plainEnvelope, _, _, rfl, rfl, rfl, ⟨.str "t", rfl⟩⟩, _, ⟨"Hi", rfl, rfl⟩, rfl⟩

/-- Once she has deleted it, the mail that was delivered is a failed run. -/
theorem deleted_not_noop : Sent (sentWorld []) 7 (some "m") ∧
    (execute noonEnv ⟨7, "ann"⟩ helloParams (sentWorld [])).1 =
      .returned (missingConnectionResult "") ∧
    ¬NoopSuccess (some "m") (sentWorld [])
      (execute noonEnv ⟨7, "ann"⟩ helloParams (sentWorld [])) := by
  have hres : (execute noonEnv ⟨7, "ann"⟩ helloParams (sentWorld [])).1 =
      .returned (missingConnectionResult "") := rfl
  refine ⟨⟨⟨"email_send:7", 7, .sent, some "m"⟩, by decide, rfl, rfl⟩, hres, fun h => ?_⟩
  exact absurd (h.ok hres) (by decide)

end TaskScheduler.Email
