import TaskScheduler.Connections.Store

/-! What is left of a refreshed token once the session that stored it is closed: the next session
reads the row as it was, and refreshes again. -/

namespace TaskScheduler.Connections

variable {Blob : Type}

/-! ### Calls one after the other -/

/-- The calls that open sessions of their own, with the readings of the clock. -/
inductive Call
  | getToken (refresher : Option TokenRefresher) (now : Int) (nonce : Nat)
      (userId provider : String)
  | checkOauthForExecute (refresher : Option TokenRefresher) (now now' : Int) (nonce : Nat)
      (userId provider : String)
  | emailSend (refresher : TokenRefresher) (now now' now'' : Int) (nonce nonce' : Nat)
      (userId : String)

def Call.run (envelope : Option (KmsEnvelope Blob)) (fromisoformat : String → Option Int)
    (window : Int) (w : World Blob) : Call → World Blob
  | .getToken refresher now nonce userId provider =>
    (Connections.getToken envelope fromisoformat refresher window now nonce userId provider w).2
  | .checkOauthForExecute refresher now now' nonce userId provider =>
    (Connections.checkOauthForExecute envelope fromisoformat refresher window now now' nonce userId
      provider w).2
  | .emailSend refresher now now' now'' nonce nonce' userId =>
    (gmailToken envelope fromisoformat refresher window now now' now'' nonce nonce' userId w).2

section

variable {envelope : Option (KmsEnvelope Blob)} {fromisoformat : String → Option Int}
  {window : Int}

theorem gmailToken_committed (refresher : TokenRefresher) (now now' now'' : Int)
    (nonce nonce' : Nat) (userId : String) (w : World Blob) :
    (gmailToken envelope fromisoformat refresher window now now' now'' nonce nonce' userId
      w).2.committed = w.committed := by
  have hcheck := @checkOauthForExecute_committed _ fromisoformat window envelope (some refresher)
    now now' nonce userId "google" w
  unfold gmailToken
  split
  · rfl
  · split
    · next heq => rwa [heq] at hcheck
    · next w₁ heq =>
      rw [heq] at hcheck
      have htoken := @getToken_committed _ fromisoformat window envelope (some refresher) now''
        nonce' userId "google" w₁
      split <;> next heq => exact (heq ▸ htoken).trans hcheck

theorem Call.run_committed (w : World Blob) (c : Call) :
    (c.run envelope fromisoformat window w).committed = w.committed := by
  cases c with
  | getToken refresher now nonce userId provider => exact getToken_committed _ _ _ _ _ _ _
  | checkOauthForExecute refresher now now' nonce userId provider =>
    exact checkOauthForExecute_committed _ _ _ _ _ _ _ _
  | emailSend refresher now now' now'' nonce nonce' userId =>
    exact gmailToken_committed _ _ _ _ _ _ _ _

/-- However many sessions are opened, the rows stay as they were. -/
theorem calls_committed (cs : List Call) (w : World Blob) :
    (cs.foldl (Call.run envelope fromisoformat window) w).committed = w.committed := by
  induction cs generalizing w with
  | nil => rfl
  | cons c cs ih => rw [List.foldl_cons, ih, Call.run_committed]

end

/-! ### One call -/

section

variable {envelope : KmsEnvelope Blob} {fromisoformat : String → Option Int} {window : Int}
  {userId provider : String} {w : World Blob} {refresher : TokenRefresher} {now : Int} {nonce : Nat}

/-- The row of the pair is inside the refresh window, and decrypts to this token data. -/
def Refreshes (envelope : KmsEnvelope Blob) (window now : Int) (rows : List (OAuthConnection Blob))
    (userId provider : String) (tokenData : JsonObject) : Prop :=
  ∃ r, loadRow rows userId provider = some r ∧ envelope.decrypt r.encryptedBlob = some tokenData ∧
    needsRefresh r.expiresAt window now = true

/-- Inside the window the refresher is invoked once, and the call returns if the refresh goes
through. -/
theorem getToken_refreshes {tokenData : JsonObject}
    (h : Refreshes envelope window now w.committed userId provider tokenData) :
    (getToken (some envelope) fromisoformat (some refresher) window now nonce userId provider
      w).2.refreshed = w.refreshed ++ [(tokenData, refresher w.refreshed tokenData)] ∧
    ((∃ token, (getToken (some envelope) fromisoformat (some refresher) window now nonce userId
      provider w).1 = .ok token) ↔
      ∃ d, refresher w.refreshed tokenData = some d ∧ Goes fromisoformat d) := by
  obtain ⟨r, hr, ht, hneeds⟩ := h
  have heq : getToken (some envelope) fromisoformat (some refresher) window now nonce userId
      provider w = inSession (refreshToken envelope fromisoformat refresher nonce userId provider
        tokenData) w := by
    simp only [getToken, inSession, getFreshToken, hr, ht, hneeds, if_true]
  rw [heq]
  exact ⟨(refreshToken_refreshed envelope fromisoformat refresher nonce userId provider tokenData
    { w with session := w.committed }).1, refreshToken_ok envelope nonce userId provider⟩

/-- Outside the window the refresher is left alone. -/
theorem getToken_keeps (refresher : Option TokenRefresher)
    (h : ∀ tokenData, ¬Refreshes envelope window now w.committed userId provider tokenData) :
    (getToken (some envelope) fromisoformat refresher window now nonce userId provider
      w).2.refreshed = w.refreshed := by
  simp only [getToken, inSession, getFreshToken]
  split
  · rfl
  · next r hr =>
    split
    · rfl
    · next t ht =>
      split
      · rfl
      · split
        · next hneeds => exact absurd ⟨r, hr, ht, hneeds⟩ (h t)
        · rfl

/-- What the refreshed data `d` is owed: the row holds it, and the next session returns its token
and does not refresh while it is outside the window. -/
structure Durable (envelope : KmsEnvelope Blob) (fromisoformat : String → Option Int) (window : Int)
    (w : World Blob) (userId provider : String) (d : JsonObject) : Prop where
  holds : Holds envelope fromisoformat w.committed userId provider d
  next : ∀ (refresher : Option TokenRefresher) (now : Int) (nonce : Nat),
    (∀ t, parseExpiresAt fromisoformat (d.get "expires_at") = .ok t →
      needsRefresh t window now = false) →
    (getToken (some envelope) fromisoformat refresher window now nonce userId provider w).1 =
      accessToken d ∧
    (getToken (some envelope) fromisoformat refresher window now nonce userId provider
      w).2.refreshed = w.refreshed

/-- A row that holds the data is all that the next session needs. -/
theorem Holds.durable {d : JsonObject}
    (h : Holds envelope fromisoformat w.committed userId provider d) :
    Durable envelope fromisoformat window w userId provider d := by
  refine ⟨h, fun refresher now nonce hfresh => ?_⟩
  obtain ⟨r, hr, hd, hexpires⟩ := h
  have hneeds : needsRefresh r.expiresAt window now = false := hfresh _ hexpires
  refine ⟨?_, getToken_keeps refresher ?_⟩
  · cases refresher <;>
      simp only [getToken, inSession, getFreshToken, hr, hd, hneeds, Bool.false_eq_true, if_false]
  · rintro t ⟨r', hr', -, hneeds'⟩
    rw [hr] at hr'
    cases hr'
    rw [hneeds] at hneeds'
    cases hneeds'

/-- Rows that nothing was written to hold the data only if they held it before. -/
theorem durable_iff {r : OAuthConnection Blob} {t d : JsonObject} {w' : World Blob}
    (hsame : w'.committed = w.committed) (hr : loadRow w.committed userId provider = some r)
    (ht : envelope.decrypt r.encryptedBlob = some t) :
    Durable envelope fromisoformat window w' userId provider d ↔
      t = d ∧ parseExpiresAt fromisoformat (d.get "expires_at") = .ok r.expiresAt := by
  constructor
  · intro h
    obtain ⟨r', hr', hd, hexpires⟩ := h.holds
    rw [hsame, hr] at hr'
    cases hr'
    rw [ht] at hd
    cases hd
    exact ⟨rfl, hexpires⟩
  · rintro ⟨rfl, hexpires⟩
    have hholds : Holds envelope fromisoformat w'.committed userId provider t :=
      ⟨r, hsame ▸ hr, ht, hexpires⟩
    exact hholds.durable

end

/-! ### One `email_send` -/

section

variable {envelope : KmsEnvelope Blob} {fromisoformat : String → Option Int} {window : Int}
  {w w₁ : World Blob} {refresher : TokenRefresher} {now now' now'' : Int} {nonce nonce' : Nat}
  {userId provider : String}

theorem getToken_once (refresher : Option TokenRefresher) (w : World Blob) :
    (getToken (some envelope) fromisoformat refresher window now nonce userId provider
      w).2.refreshed.length ≤ w.refreshed.length + 1 := by
  by_cases h : ∃ t, Refreshes envelope window now w.committed userId provider t
  · cases refresher with
    | none =>
      unfold getToken inSession getFreshToken
      dsimp only
      split
      · exact Nat.le_succ _
      · split <;> exact Nat.le_succ _
    | some refresher =>
      obtain ⟨t, ht⟩ := h
      rw [(getToken_refreshes ht).1]
      simp
  · rw [getToken_keeps refresher fun t ht => h ⟨t, ht⟩]
    exact Nat.le_succ _

/-- The row of the pair has expired. -/
def Expired (rows : List (OAuthConnection Blob)) (now : Int) (userId provider : String) : Prop :=
  ∃ r, loadRow rows userId provider = some r ∧ (r.expiresAt.any fun t => decide (t ≤ now)) = true

theorem check_unexpired (refresher : Option TokenRefresher)
    (h : ¬Expired w.committed now userId provider) :
    (checkOauthForExecute (some envelope) fromisoformat refresher window now now' nonce userId
      provider w).2 = w := by
  unfold checkOauthForExecute
  dsimp only
  split
  · rfl
  · next r hr =>
    rw [if_neg fun hexpired => h ⟨r, hr, hexpired⟩]

/-- On an expired row, the check is a call of `get_token` whose exceptions are caught. -/
theorem check_expired (h : Expired w.committed now userId provider) :
    (checkOauthForExecute (some envelope) fromisoformat (some refresher) window now now' nonce
      userId provider w).2 = (getToken (some envelope) fromisoformat (some refresher) window now'
        nonce userId provider w).2 ∧
    ((checkOauthForExecute (some envelope) fromisoformat (some refresher) window now now' nonce
      userId provider w).1 = true ↔ ∃ token, (getToken (some envelope) fromisoformat
        (some refresher) window now' nonce userId provider w).1 = .ok token) := by
  obtain ⟨r, hr, hexpired⟩ := h
  simp only [checkOauthForExecute, hr, hexpired, if_true, getToken]
  split <;> next heq => simp [heq]

theorem gmailToken_proceeds (hu : userId ≠ "")
    (h : checkOauthForExecute (some envelope) fromisoformat (some refresher) window now now' nonce
      userId "google" w = (true, w₁)) :
    (gmailToken (some envelope) fromisoformat refresher window now now' now'' nonce nonce' userId
      w).2 = (getToken (some envelope) fromisoformat (some refresher) window now'' nonce' userId
        "google" w₁).2 := by
  simp only [gmailToken, if_neg hu, h]
  split <;> next heq => rw [heq]

theorem gmailToken_stops (h : checkOauthForExecute (some envelope) fromisoformat (some refresher)
      window now now' nonce userId "google" w = (false, w₁)) :
    (gmailToken (some envelope) fromisoformat refresher window now now' now'' nonce nonce' userId
      w).2 = if userId = "" then w else w₁ := by
  unfold gmailToken
  split
  · rfl
  · rw [h]

/-- The row has expired when it is checked, the refresh goes through, and the row, which is still
the old one, is inside the window when the token is fetched. -/
def RefreshesTwice (envelope : KmsEnvelope Blob) (fromisoformat : String → Option Int)
    (refresher : TokenRefresher) (window now now' now'' : Int) (userId : String) (w : World Blob) :
    Prop :=
  userId ≠ "" ∧ Expired w.committed now userId "google" ∧ ∃ t d,
    Refreshes envelope window now' w.committed userId "google" t ∧
    refresher w.refreshed t = some d ∧ Goes fromisoformat d ∧
    Refreshes envelope window now'' w.committed userId "google" t

theorem Refreshes.unique {rows : List (OAuthConnection Blob)} {t t' : JsonObject}
    (h : Refreshes envelope window now rows userId provider t)
    (h' : Refreshes envelope window now' rows userId provider t') : t = t' := by
  obtain ⟨r, hr, ht, -⟩ := h
  obtain ⟨r', hr', ht', -⟩ := h'
  rw [hr] at hr'
  cases hr'
  rw [ht] at ht'
  exact Option.some.inj ht'

/-- One `email_send` invokes the refresher at most once, except where it refreshes twice. -/
theorem gmailToken_once (refresher : TokenRefresher) (now now' now'' : Int) (nonce nonce' : Nat)
    (userId : String) (w : World Blob) :
    (gmailToken (some envelope) fromisoformat refresher window now now' now'' nonce nonce' userId
      w).2.refreshed.length ≤ w.refreshed.length + 1 ↔
    ¬RefreshesTwice envelope fromisoformat refresher window now now' now'' userId w := by
  by_cases hu : userId = ""
  · refine iff_of_true ?_ fun h => h.1 hu
    unfold gmailToken
    rw [if_pos hu]
    exact Nat.le_succ _
  have hcommitted := @checkOauthForExecute_committed _ fromisoformat window (some envelope)
    (some refresher) now now' nonce userId "google" w
  -- the world after the check, and whether it lets the send go on
  generalize hcheck : checkOauthForExecute (some envelope) fromisoformat (some refresher) window now
    now' nonce userId "google" w = after at hcommitted
  obtain ⟨proceeds, w₁⟩ := after
  have hfetch := @getToken_once _ envelope fromisoformat window now'' nonce' userId "google"
    (some refresher) w₁
  have hsent : (gmailToken (some envelope) fromisoformat refresher window now now' now'' nonce
      nonce' userId w).2 = if proceeds then (getToken (some envelope) fromisoformat (some refresher)
        window now'' nonce' userId "google" w₁).2 else w₁ := by
    cases proceeds with
    | true => exact gmailToken_proceeds hu hcheck
    | false => rw [gmailToken_stops hcheck, if_neg hu, if_neg Bool.false_ne_true]
  rw [hsent]
  by_cases hexpired : Expired w.committed now userId "google"
  · obtain ⟨hworld, hproceeds⟩ := @check_expired _ envelope fromisoformat window w refresher now
      now' nonce userId "google" hexpired
    rw [hcheck] at hworld hproceeds
    by_cases hfirst : ∃ t, Refreshes envelope window now' w.committed userId "google" t
    · obtain ⟨t, ht⟩ := hfirst
      obtain ⟨hlog, hok⟩ := @getToken_refreshes _ envelope fromisoformat window userId "google" w
        refresher now' nonce t ht
      rw [← hworld] at hlog
      have hlength : w₁.refreshed.length = w.refreshed.length + 1 := by rw [hlog]; simp
      rw [hok] at hproceeds
      cases proceeds with
      | false =>
        rw [if_neg Bool.false_ne_true]
        refine iff_of_true (by omega) fun h => ?_
        obtain ⟨-, -, t', d, ht', hd, hgoes, -⟩ := h
        rw [← ht.unique ht'] at hd
        exact Bool.false_ne_true (hproceeds.mpr ⟨d, hd, hgoes⟩)
      | true =>
        obtain ⟨d, hd, hgoes⟩ := hproceeds.mp rfl
        rw [if_pos rfl]
        by_cases hagain : Refreshes envelope window now'' w.committed userId "google" t
        · -- the row is the one that the check has read
          rw [(getToken_refreshes (hcommitted ▸ hagain)).1, List.length_append,
            List.length_singleton]
          refine iff_of_false (by omega) fun h => h ⟨hu, hexpired, t, d, ht, hd, hgoes, hagain⟩
        · rw [getToken_keeps (some refresher)
            fun t' ht' => hagain (ht.unique (hcommitted ▸ ht') ▸ hcommitted ▸ ht')]
          have hle : w₁.refreshed.length ≤ w.refreshed.length + 1 := by omega
          refine iff_of_true hle fun h => ?_
          obtain ⟨-, -, t', -, ht', -, -, hagain'⟩ := h
          exact hagain (ht.unique ht' ▸ hagain')
    · have hlog := @getToken_keeps _ envelope fromisoformat window userId "google" w now' nonce
        (some refresher) fun t ht => hfirst ⟨t, ht⟩
      rw [← hworld] at hlog
      refine iff_of_true ?_ fun h => hfirst ⟨h.2.2.choose, h.2.2.choose_spec.choose_spec.1⟩
      rw [← hlog]
      split
      · exact hfetch
      · exact Nat.le_succ _
  · have hworld := @check_unexpired _ envelope fromisoformat window w now now' nonce userId "google"
      (some refresher) hexpired
    rw [hcheck] at hworld
    refine iff_of_true ?_ fun h => hexpired h.2.1
    rw [← show w₁ = w from hworld]
    split
    · exact hfetch
    · exact Nat.le_succ _

end

/-! ### Refreshed tokens -/

/-- After a successful call, the refreshed data is durable exactly if the row held it before the
call; and one `email_send` invokes the refresher at most once exactly if it does not refresh an
expired row that is still inside the window when the token is fetched. -/
theorem refreshed_token_durable (envelope : KmsEnvelope Blob) (fromisoformat : String → Option Int)
    (window : Int) (w : World Blob) :
    (∀ (userId provider : String) (r : OAuthConnection Blob) (t d : JsonObject)
      (refresher : TokenRefresher) (now : Int), loadRow w.committed userId provider = some r →
      envelope.decrypt r.encryptedBlob = some t → needsRefresh r.expiresAt window now = true →
      refresher w.refreshed t = some d →
      (∀ (nonce : Nat) (token : Json) (w' : World Blob),
        getToken (some envelope) fromisoformat (some refresher) window now nonce userId provider w =
          (.ok token, w') →
        (Durable envelope fromisoformat window w' userId provider d ↔
          t = d ∧ parseExpiresAt fromisoformat (d.get "expires_at") = .ok r.expiresAt)) ∧
      ∀ (now' : Int) (nonce : Nat) (w' : World Blob),
        checkOauthForExecute (some envelope) fromisoformat (some refresher) window now now' nonce
          userId provider w = (true, w') →
        (Durable envelope fromisoformat window w' userId provider d ↔
          t = d ∧ parseExpiresAt fromisoformat (d.get "expires_at") = .ok r.expiresAt)) ∧
    ∀ (refresher : TokenRefresher) (now now' now'' : Int) (nonce nonce' : Nat) (userId : String),
      (gmailToken (some envelope) fromisoformat refresher window now now' now'' nonce nonce' userId
        w).2.refreshed.length ≤ w.refreshed.length + 1 ↔
      ¬RefreshesTwice envelope fromisoformat refresher window now now' now'' userId w := by
  refine ⟨fun userId provider r t d refresher now hr ht _ _ => ⟨fun nonce token w' h => ?_,
    fun now' nonce w' h => ?_⟩, fun refresher now now' now'' nonce nonce' userId =>
      gmailToken_once refresher now now' now'' nonce nonce' userId w⟩
  · have hsame := @getToken_committed _ fromisoformat window (some envelope) (some refresher) now
      nonce userId provider w
    rw [h] at hsame
    exact durable_iff hsame hr ht
  · have hsame := @checkOauthForExecute_committed _ fromisoformat window (some envelope)
      (some refresher) now now' nonce userId provider w
    rw [h] at hsame
    exact durable_iff hsame hr ht

/-- `datetime.fromisoformat` on two hours. -/
def hours (s : String) : Option Int :=
  if s = "1970-01-01T00:00:00+00:00" then some 0
  else if s = "1970-01-01T01:00:00+00:00" then some 3600000000
  else none

/-- A token that expires at midnight. -/
def oldToken : JsonObject :=
  [("access_token", .str "old"), ("refresh_token", .str "r1"),
    ("expires_at", .str "1970-01-01T00:00:00+00:00")]

/-- What the provider hands out for it. -/
def newToken : JsonObject :=
  [("access_token", .str "new"), ("refresh_token", .str "r2"),
    ("expires_at", .str "1970-01-01T01:00:00+00:00")]

def aliceWorld : World JsonObject where
  committed := [⟨"alice", "google", oldToken, some 0⟩]

/-- `refresh_window_seconds`. -/
def refreshWindow : Int := 300000000

/-- One microsecond after midnight: the caller gets the new token, the row keeps the old one with
the refresh token that the provider has replaced, and one `email_send` refreshes twice. -/
theorem rotated_lost : ∃ w', getToken (some plainEnvelope) hours (some fun _ _ => some newToken)
      refreshWindow 1 0 "alice" "google" aliceWorld = (.ok (.str "new"), w') ∧
    ¬Durable plainEnvelope hours refreshWindow w' "alice" "google" newToken ∧
    (gmailToken (some plainEnvelope) hours (fun _ _ => some newToken) refreshWindow 1 1 1 0 1
      "alice" aliceWorld).2.refreshed.length = 2 := by
  refine ⟨_, rfl, fun h => ?_, rfl⟩
  obtain ⟨r, hr, hd, -⟩ := h.holds
  cases hr
  simp [plainEnvelope, oldToken, newToken] at hd

/-- A refresher that returns what it is given, as Google's does without a refresh token, leaves
nothing to lose; and a row that has not expired is refreshed once. -/
theorem unrefreshed_durable : (∃ w', getToken (some plainEnvelope) hours (some fun _ t => some t)
      refreshWindow 1 0 "alice" "google" aliceWorld = (.ok (.str "old"), w') ∧
      Durable plainEnvelope hours refreshWindow w' "alice" "google" oldToken) ∧
    (gmailToken (some plainEnvelope) hours (fun _ _ => some newToken) refreshWindow (-1) 0 0 0 1
      "alice" aliceWorld).2.refreshed.length ≤ 1 := by
  refine ⟨⟨_, rfl, (((refreshed_token_durable plainEnvelope hours refreshWindow aliceWorld).1
    "alice" "google" ⟨"alice", "google", oldToken, some 0⟩ oldToken oldToken (fun _ t => some t) 1 rfl
    rfl rfl rfl).1 0 _ _ rfl).mpr ⟨rfl, rfl⟩⟩, ?_⟩
  refine ((refreshed_token_durable plainEnvelope hours refreshWindow aliceWorld).2
    (fun _ _ => some newToken) (-1) 0 0 0 1 "alice").mpr ?_
  rintro ⟨-, ⟨r, hr, hexpired⟩, -⟩
  cases hr
  cases hexpired

end TaskScheduler.Connections
