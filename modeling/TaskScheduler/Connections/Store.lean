import TaskScheduler.Actions.Params

/-! The connection store, `app/connections/store.py`, and the two callers that open sessions of
their own: `get_token`, and `check_oauth_for_execute` of `app/actions/_oauth.py`, which `email_send`
calls one after the other.  A session that is closed without a commit leaves no trace. -/

namespace TaskScheduler.Connections

/-- The columns of `OAuthConnection` that the store reads. -/
structure OAuthConnection (Blob : Type) where
  userId : String
  provider : String
  encryptedBlob : Blob
  expiresAt : Option Int

/-- `KmsEnvelope` around the JSON of the token data, with the randomness that it draws. -/
structure KmsEnvelope (Blob : Type) where
  encrypt : Nat → JsonObject → Blob
  decrypt : Blob → Option JsonObject
  decrypt_encrypt : ∀ nonce tokenData, decrypt (encrypt nonce tokenData) = some tokenData

/-- An envelope that hides nothing. -/
def plainEnvelope : KmsEnvelope JsonObject := ⟨fun _ tokenData => tokenData, some, fun _ _ => rfl⟩

/-- The committed rows, those that the open session sees, and the invocations of the refresher so
far with what they returned. -/
structure World (Blob : Type) where
  committed : List (OAuthConnection Blob)
  session : List (OAuthConnection Blob) := []
  refreshed : List (JsonObject × Option JsonObject) := []

/-- A refresher: what it returns after these invocations, unless it raises. -/
abbrev TokenRefresher := List (JsonObject × Option JsonObject) → JsonObject → Option JsonObject

/-- The exceptions of the store. -/
inductive StoreError
  | connectionMiss
  | noEnvelope
  | decryption
  | refresher
  | expiresAt
  | noAccessToken
  deriving DecidableEq, Repr

section Store

variable {Blob : Type}

def OAuthConnection.isOf (userId provider : String) (r : OAuthConnection Blob) : Bool :=
  r.userId == userId && r.provider == provider

/-- `_load_row`; the pair is unique. -/
def loadRow (rows : List (OAuthConnection Blob)) (userId provider : String) :
    Option (OAuthConnection Blob) :=
  rows.find? (OAuthConnection.isOf userId provider)

/-- The insert of `upsert`, with `ON CONFLICT DO UPDATE`. -/
def upsertRow (rows : List (OAuthConnection Blob)) (row : OAuthConnection Blob) :
    List (OAuthConnection Blob) :=
  if rows.any (OAuthConnection.isOf row.userId row.provider) then
    rows.map fun r =>
      if r.isOf row.userId row.provider then
        { r with encryptedBlob := row.encryptedBlob, expiresAt := row.expiresAt }
      else r
  else rows ++ [row]

/-- `_parse_expires_at`; `fromisoformat` is that of `datetime`. -/
def parseExpiresAt (fromisoformat : String → Option Int) :
    Option Json → Except StoreError (Option Int)
  | none | some .null => .ok none
  | some (.str s) =>
    match fromisoformat s with
    | some t => .ok (some t)
    | none => .error .expiresAt
  | some _ => .ok none

/-- `_needs_refresh`. -/
def needsRefresh (expiresAt : Option Int) (window now : Int) : Bool :=
  expiresAt.any fun t => decide (t ≤ now + window)

/-- `token_data["access_token"]`. -/
def accessToken (tokenData : JsonObject) : Except StoreError Json :=
  match tokenData.get "access_token" with
  | some token => .ok token
  | none => .error .noAccessToken

/-- `ConnectionStore.upsert`, in the open session. -/
def upsert (envelope : KmsEnvelope Blob) (fromisoformat : String → Option Int) (nonce : Nat)
    (userId provider : String) (tokenData : JsonObject) (w : World Blob) :
    Except StoreError Unit × World Blob :=
  match parseExpiresAt fromisoformat (tokenData.get "expires_at") with
  | .error e => (.error e, w)
  | .ok expiresAt =>
    let row := ⟨userId, provider, envelope.encrypt nonce tokenData, expiresAt⟩
    (.ok (), { w with session := upsertRow w.session row })

/-- The refresh of `get_fresh_token`: the refresher is invoked, and what it returns is stored. -/
def refreshToken (envelope : KmsEnvelope Blob) (fromisoformat : String → Option Int)
    (refresher : TokenRefresher) (nonce : Nat) (userId provider : String) (tokenData : JsonObject)
    (w : World Blob) : Except StoreError Json × World Blob :=
  let returned := refresher w.refreshed tokenData
  let w := { w with refreshed := w.refreshed ++ [(tokenData, returned)] }
  match returned with
  | none => (.error .refresher, w)
  | some tokenData =>
    match upsert envelope fromisoformat nonce userId provider tokenData w with
    | (.error e, w) => (.error e, w)
    | (.ok (), w) => (accessToken tokenData, w)

/-- `ConnectionStore.get_fresh_token`, in the open session. -/
def getFreshToken (envelope : KmsEnvelope Blob) (fromisoformat : String → Option Int)
    (refresher : Option TokenRefresher) (window now : Int) (nonce : Nat) (userId provider : String)
    (w : World Blob) : Except StoreError Json × World Blob :=
  match loadRow w.session userId provider with
  | none => (.error .connectionMiss, w)
  | some row =>
    match envelope.decrypt row.encryptedBlob with
    | none => (.error .decryption, w)
    | some tokenData =>
      match refresher with
      | none => (accessToken tokenData, w)
      | some refresher =>
        if needsRefresh row.expiresAt window now then
          refreshToken envelope fromisoformat refresher nonce userId provider tokenData w
        else (accessToken tokenData, w)

/-- `async with session_factory() as session`: the body sees what is committed, and what it has
written is discarded at the end. -/
def inSession {α : Type} (body : World Blob → α × World Blob) (w : World Blob) : α × World Blob :=
  let (res, w) := body { w with session := w.committed }
  (res, { w with session := [] })

/-- `get_token`; without a configured KMS there is no envelope. -/
def getToken (envelope : Option (KmsEnvelope Blob)) (fromisoformat : String → Option Int)
    (refresher : Option TokenRefresher) (window now : Int) (nonce : Nat) (userId provider : String)
    (w : World Blob) : Except StoreError Json × World Blob :=
  match envelope with
  | some envelope =>
    inSession (getFreshToken envelope fromisoformat refresher window now nonce userId provider) w
  | none =>
    match loadRow w.committed userId provider with
    | none => (.error .connectionMiss, w)
    | some _ => (.error .noEnvelope, w)

/-- `check_oauth_for_execute`: whether the caller proceeds, or returns MISSING_CONNECTION.  The
clock is read here and once more in `get_fresh_token`. -/
def checkOauthForExecute (envelope : Option (KmsEnvelope Blob))
    (fromisoformat : String → Option Int) (refresher : Option TokenRefresher)
    (window now now' : Int) (nonce : Nat) (userId provider : String) (w : World Blob) :
    Bool × World Blob :=
  match envelope with
  | none => (true, w)
  | some envelope =>
    match loadRow w.committed userId provider with
    | none => (false, w)
    | some row =>
      if row.expiresAt.any fun t => decide (t ≤ now) then
        match refresher with
        | none => (false, w)
        | some refresher =>
          match inSession (getFreshToken envelope fromisoformat (some refresher) window now' nonce
            userId provider) w with
          | (.ok _, w) => (true, w)
          | (.error _, w) => (false, w)
      else (true, w)

/-- What `_send_via_gmail` of `app/actions/email_send.py` has before it builds the message. -/
inductive GmailToken
  | noUser
  | missingConnection
  | raised (e : StoreError)
  | token (t : Json)

/-- The beginning of `_send_via_gmail`: the check and then the token, with one refresher; no later
step invokes it. -/
def gmailToken (envelope : Option (KmsEnvelope Blob)) (fromisoformat : String → Option Int)
    (refresher : TokenRefresher) (window now now' now'' : Int) (nonce nonce' : Nat)
    (userId : String) (w : World Blob) : GmailToken × World Blob :=
  if userId = "" then (.noUser, w)
  else
    match checkOauthForExecute envelope fromisoformat (some refresher) window now now' nonce userId
      "google" w with
    | (false, w) => (.missingConnection, w)
    | (true, w) =>
      match getToken envelope fromisoformat (some refresher) window now'' nonce' userId "google"
        w with
      | (.error .connectionMiss, w) => (.missingConnection, w)
      | (.error e, w) => (.raised e, w)
      | (.ok token, w) => (.token token, w)

/-! ### What the calls leave -/

variable {envelope : KmsEnvelope Blob} {fromisoformat : String → Option Int} {window : Int}

/-- The row of the pair decrypts to the token data, with the expiry that goes with it. -/
def Holds (envelope : KmsEnvelope Blob) (fromisoformat : String → Option Int)
    (rows : List (OAuthConnection Blob)) (userId provider : String) (tokenData : JsonObject) :
    Prop :=
  ∃ r, loadRow rows userId provider = some r ∧ envelope.decrypt r.encryptedBlob = some tokenData ∧
    parseExpiresAt fromisoformat (tokenData.get "expires_at") = .ok r.expiresAt

section Refresh

variable {refresher : TokenRefresher} {nonce : Nat} {userId provider : String}
  {tokenData d : JsonObject} {w : World Blob}

/-- The invocation is recorded, whatever comes after it. -/
def World.refresh (w : World Blob) (tokenData : JsonObject) (returned : Option JsonObject) :
    World Blob :=
  { w with refreshed := w.refreshed ++ [(tokenData, returned)] }

theorem refreshToken_raises (h : refresher w.refreshed tokenData = none) :
    refreshToken envelope fromisoformat refresher nonce userId provider tokenData w =
      (.error .refresher, w.refresh tokenData none) := by
  simp only [refreshToken, h, World.refresh]

theorem refreshToken_rejected {e : StoreError} (h : refresher w.refreshed tokenData = some d)
    (hd : parseExpiresAt fromisoformat (d.get "expires_at") = .error e) :
    refreshToken envelope fromisoformat refresher nonce userId provider tokenData w =
      (.error e, w.refresh tokenData (some d)) := by
  simp only [refreshToken, h, upsert, hd, World.refresh]

theorem refreshToken_stored {expiresAt : Option Int}
    (h : refresher w.refreshed tokenData = some d)
    (hd : parseExpiresAt fromisoformat (d.get "expires_at") = .ok expiresAt) :
    refreshToken envelope fromisoformat refresher nonce userId provider tokenData w =
      (accessToken d, { w.refresh tokenData (some d) with
        session :=
          upsertRow w.session ⟨userId, provider, envelope.encrypt nonce d, expiresAt⟩ }) := by
  simp only [refreshToken, h, upsert, hd, World.refresh]

theorem refreshToken_refreshed (envelope : KmsEnvelope Blob) (fromisoformat : String → Option Int)
    (refresher : TokenRefresher) (nonce : Nat) (userId provider : String) (tokenData : JsonObject)
    (w : World Blob) :
    (refreshToken envelope fromisoformat refresher nonce userId provider tokenData
      w).2.refreshed = w.refreshed ++ [(tokenData, refresher w.refreshed tokenData)] ∧
    (refreshToken envelope fromisoformat refresher nonce userId provider tokenData
      w).2.committed = w.committed := by
  cases h : refresher w.refreshed tokenData with
  | none =>
    rw [refreshToken_raises h]
    exact ⟨rfl, rfl⟩
  | some d =>
    cases hd : parseExpiresAt fromisoformat (d.get "expires_at") with
    | error e =>
      rw [refreshToken_rejected h hd]
      exact ⟨rfl, rfl⟩
    | ok expiresAt =>
      rw [refreshToken_stored h hd]
      exact ⟨rfl, rfl⟩

/-- Whether a refresh goes through is a matter of what the refresher returns. -/
def Goes (fromisoformat : String → Option Int) (d : JsonObject) : Prop :=
  (∃ t, parseExpiresAt fromisoformat (d.get "expires_at") = .ok t) ∧ ∃ t, accessToken d = .ok t

theorem refreshToken_ok (envelope : KmsEnvelope Blob) (nonce : Nat) (userId provider : String) :
    (∃ token, (refreshToken envelope fromisoformat refresher nonce userId provider tokenData
      w).1 = .ok token) ↔
    ∃ d, refresher w.refreshed tokenData = some d ∧ Goes fromisoformat d := by
  cases h : refresher w.refreshed tokenData with
  | none =>
    rw [refreshToken_raises h]
    simp
  | some d =>
    unfold Goes
    cases hd : parseExpiresAt fromisoformat (d.get "expires_at") with
    | error e =>
      rw [refreshToken_rejected h hd]
      simp [hd]
    | ok expiresAt =>
      rw [refreshToken_stored h hd]
      simp [hd]

end Refresh

/-- The store leaves what is committed. -/
theorem getFreshToken_committed (refresher : Option TokenRefresher) (now : Int) (nonce : Nat)
    (userId provider : String) (w : World Blob) :
    (getFreshToken envelope fromisoformat refresher window now nonce userId provider
      w).2.committed = w.committed := by
  unfold getFreshToken
  split
  · rfl
  · split
    · rfl
    · split
      · rfl
      · split
        · exact (refreshToken_refreshed _ _ _ _ _ _ _ _).2
        · rfl

theorem inSession_committed {α : Type} {body : World Blob → α × World Blob} (w : World Blob)
    (h : ∀ w, (body w).2.committed = w.committed) : (inSession body w).2.committed = w.committed :=
  h _

theorem getToken_committed (envelope : Option (KmsEnvelope Blob))
    (refresher : Option TokenRefresher) (now : Int) (nonce : Nat) (userId provider : String)
    (w : World Blob) :
    (getToken envelope fromisoformat refresher window now nonce userId provider w).2.committed =
      w.committed := by
  unfold getToken
  split
  · exact inSession_committed w fun w => getFreshToken_committed _ _ _ _ _ w
  · split <;> rfl

theorem checkOauthForExecute_committed (envelope : Option (KmsEnvelope Blob))
    (refresher : Option TokenRefresher) (now now' : Int) (nonce : Nat) (userId provider : String)
    (w : World Blob) :
    (checkOauthForExecute envelope fromisoformat refresher window now now' nonce userId provider
      w).2.committed = w.committed := by
  unfold checkOauthForExecute
  split
  · rfl
  · next env =>
    split
    · rfl
    · split
      · split
        · rfl
        · next r =>
          have h := inSession_committed w fun w => @getFreshToken_committed _ env fromisoformat
            window (some r) now' nonce userId provider w
          split <;> next heq => rwa [heq] at h
      · rfl

theorem loadRow_upsertRow (rows : List (OAuthConnection Blob)) (row : OAuthConnection Blob) :
    ∃ r, loadRow (upsertRow rows row) row.userId row.provider = some r ∧
      r.encryptedBlob = row.encryptedBlob ∧ r.expiresAt = row.expiresAt := by
  unfold loadRow upsertRow
  split
  · next h =>
    obtain ⟨x, hx, hkey⟩ := List.any_eq_true.mp h
    have hsome : ((rows.map fun r => if r.isOf row.userId row.provider then
        { r with encryptedBlob := row.encryptedBlob, expiresAt := row.expiresAt } else r).find?
        (OAuthConnection.isOf row.userId row.provider)).isSome = true := by
      rw [List.find?_isSome]
      refine ⟨_, List.mem_map_of_mem hx, ?_⟩
      rw [if_pos hkey]
      exact hkey
    obtain ⟨r, hr⟩ := Option.isSome_iff_exists.mp hsome
    refine ⟨r, hr, ?_⟩
    obtain ⟨y, -, rfl⟩ := List.mem_map.mp (List.mem_of_find?_eq_some hr)
    have hkey := List.find?_some hr
    by_cases hy : y.isOf row.userId row.provider = true
    · rw [if_pos hy]
      exact ⟨rfl, rfl⟩
    · rw [if_neg hy] at hkey
      exact absurd hkey hy
  · next h =>
    have hnone : rows.find? (OAuthConnection.isOf row.userId row.provider) = none := by
      rw [List.find?_eq_none]
      exact fun x hx hkey => h (List.any_eq_true.mpr ⟨x, hx, hkey⟩)
    rw [List.find?_append, hnone]
    refine ⟨row, ?_, rfl, rfl⟩
    simp [OAuthConnection.isOf]

/-- A refresh is written in its session; only the commit is missing. -/
theorem refreshToken_holds {refresher : TokenRefresher} {nonce : Nat} {userId provider : String}
    {tokenData d : JsonObject} {w : World Blob} (h : refresher w.refreshed tokenData = some d)
    (hd : Goes fromisoformat d) :
    Holds envelope fromisoformat (refreshToken envelope fromisoformat refresher nonce userId
      provider tokenData w).2.session userId provider d := by
  obtain ⟨⟨expiresAt, hexpires⟩, -⟩ := hd
  obtain ⟨r, hr, hblob, hr'⟩ := loadRow_upsertRow w.session
    ⟨userId, provider, envelope.encrypt nonce d, expiresAt⟩
  rw [refreshToken_stored h hexpires]
  exact ⟨r, hr, hblob ▸ envelope.decrypt_encrypt nonce d, hr' ▸ hexpires⟩

end Store

end TaskScheduler.Connections
