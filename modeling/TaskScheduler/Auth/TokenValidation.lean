import TaskScheduler.Mcp.Endpoint

/-! `validate_token` of `app/auth/token_validation.py`, and what the HTTP endpoint makes of it in
the verified posture.  PyJWT fails in two stages: at the lookup of the signing key, by the key id
that the token names, and at the decoding with that key.  Only `InvalidTokenError` is caught. -/

namespace TaskScheduler.Auth

open Mcp Connections

/-! ### PyJWT -/

/-- An exception out of the lookup of a signing key, with its text.  The subclasses of
`InvalidTokenError`, which a malformed token raises, are one family; `PyJWKClientError`, which an
unknown key id or an unreachable endpoint raises, is not among them. -/
inductive LookupError
  | invalidToken (text : String)
  | pyJwkClient (text : String)
  | other (text : String)
  deriving DecidableEq, Repr

def LookupError.isInvalidToken : LookupError → Bool
  | .invalidToken _ => true
  | _ => false

/-- The claims that are read.  `sub` is required, and PyJWT accepts it as a string only. -/
structure Claims where
  sub : String
  deriving DecidableEq, Repr

/-- The two calls into PyJWT.  The lookup depends on the state of the JWKS endpoint and takes its
address before the token; `decode` takes the token, the key, the audience and the issuer, and raises
subclasses of `InvalidTokenError`. -/
structure PyJwt (Jwks Key : Type) where
  getSigningKeyFromJwt : Jwks → String → String → Except LookupError Key
  decode : String → Key → String → String → Except String Claims

section Validate

variable {Jwks Key : Type} (jwt : PyJwt Jwks Key) (jwks : Jwks)

/-- `validate_token`. -/
def validateToken (issuer audience jwksUri token : String) : TokenResult :=
  match jwt.getSigningKeyFromJwt jwks jwksUri token with
  | .error (.invalidToken text) => .invalid text
  | .error _ => .raised
  | .ok signingKey =>
    match jwt.decode token signingKey audience issuer with
    | .error text => .invalid text
    | .ok payload =>
      if payload.sub = "" then .invalid "token missing 'sub' claim" else .user payload.sub

/-- The endpoint has a key for the token, and the token decodes with it to the subject `userId`. -/
def Verifies (issuer audience jwksUri token userId : String) : Prop :=
  ∃ signingKey, jwt.getSigningKeyFromJwt jwks jwksUri token = .ok signingKey ∧
    jwt.decode token signingKey audience issuer = .ok ⟨userId⟩ ∧ userId ≠ ""

/-- The settings of an endpoint in the verified posture. -/
def verifiedSettings (workosIssuer : Option String) (stdioUser jwksUri issuer audience : String) :
    HttpSettings where
  posture := .bearerVerified jwksUri issuer audience
  workosIssuer := workosIssuer
  validateToken := validateToken jwt jwks
  stdioUser := stdioUser

end Validate

section Results

variable {Jwks Key : Type} {jwt : PyJwt Jwks Key} {jwks : Jwks}
  {issuer audience jwksUri token : String}

theorem validateToken_user {userId : String} :
    validateToken jwt jwks issuer audience jwksUri token = .user userId ↔
      Verifies jwt jwks issuer audience jwksUri token userId := by
  unfold validateToken Verifies
  cases hkey : jwt.getSigningKeyFromJwt jwks jwksUri token with
  | error e => cases e <;> simp
  | ok signingKey =>
    simp only [Except.ok.injEq, exists_eq_left']
    cases hdecode : jwt.decode token signingKey audience issuer with
    | error text => simp
    | ok payload =>
      obtain ⟨sub⟩ := payload
      by_cases hsub : sub = ""
      · simp only [hsub, if_true, reduceCtorEq, Except.ok.injEq, Claims.mk.injEq, false_iff]
        rintro ⟨rfl, hne⟩
        exact hne rfl
      · simp only [hsub, if_false, TokenResult.user.injEq, Except.ok.injEq, Claims.mk.injEq]
        exact ⟨fun h => ⟨h, h ▸ hsub⟩, fun h => h.1⟩

/-- What leaves `validate_token` besides `TokenValidationError` comes out of the lookup. -/
theorem validateToken_raised :
    validateToken jwt jwks issuer audience jwksUri token = .raised ↔
      ∃ e, jwt.getSigningKeyFromJwt jwks jwksUri token = .error e ∧ e.isInvalidToken = false := by
  unfold validateToken
  cases hkey : jwt.getSigningKeyFromJwt jwks jwksUri token with
  | error e => cases e <;> simp [LookupError.isInvalidToken]
  | ok signingKey =>
    simp only [reduceCtorEq, false_and, exists_false, iff_false]
    cases jwt.decode token signingKey audience issuer with
    | error text => exact nofun
    | ok payload =>
      dsimp only
      split <;> exact nofun

/-- A token that neither verifies nor raises is rejected. -/
theorem validateToken_invalid
    (hraised : validateToken jwt jwks issuer audience jwksUri token ≠ .raised)
    (huser : ∀ userId, ¬Verifies jwt jwks issuer audience jwksUri token userId) :
    ∃ detail, validateToken jwt jwks issuer audience jwksUri token = .invalid detail := by
  cases h : validateToken jwt jwks issuer audience jwksUri token with
  | user userId => exact absurd (validateToken_user.mp h) (huser userId)
  | invalid detail => exact ⟨detail, rfl⟩
  | raised => exact absurd h hraised

end Results

/-! ### The endpoint -/

section Endpoint

variable {Jwks Key Blob : Type} (jwt : PyJwt Jwks Key) (jwks : Jwks) (workosIssuer : Option String)
  (stdioUser jwksUri issuer audience : String) (cfg : Mcp.Settings Blob) (lib : CreateLibs)
  (libs : Libs) (fromisoformat : String → Option Int)

/-- What a request is owed in the verified posture.  Nothing but `TokenValidationError` leaves
`validate_token`; a request without a token that verifies is answered with 401, unless the endpoint
sheds its load before it looks at the token; and the user, whatever `X-User-Id` says, is the subject
of a token that verifies. -/
structure BadTokensUnauthorized (request : HttpRequest) : Prop where
  one_failure : ∀ token, extractBearer request = some token →
    validateToken jwt jwks issuer audience jwksUri token ≠ .raised
  unauthorized : (∀ token, extractBearer request = some token →
      ∀ userId, ¬Verifies jwt jwks issuer audience jwksUri token userId) →
    ∀ (load : Load) (limitedAt : Int) (meets : Meets) (w : World Blob) (x : Db),
      load.shed = false → ∃ detail,
        endpoint (verifiedSettings jwt jwks workosIssuer stdioUser jwksUri issuer audience) cfg lib
          libs fromisoformat load limitedAt request meets w x =
        (.unauthorized detail (wwwAuthenticateHeader (verifiedSettings jwt jwks workosIssuer
          stdioUser jwksUri issuer audience) cfg.connectionsBaseUrl), x)
  from_sub : ∀ (xUserId : Option String) (userId : String),
    resolveUserId (verifiedSettings jwt jwks workosIssuer stdioUser jwksUri issuer audience)
        cfg.connectionsBaseUrl { request with xUserId := xUserId } = .ok userId ↔
      ∃ token, extractBearer request = some token ∧
        Verifies jwt jwks issuer audience jwksUri token userId

variable {jwt jwks workosIssuer stdioUser jwksUri issuer audience cfg lib libs fromisoformat}
  {request : HttpRequest}

/-- `_resolve_user_id` in the verified posture never reads `X-User-Id`. -/
theorem resolveUserId_verified (base : String) (xUserId : Option String) :
    resolveUserId (verifiedSettings jwt jwks workosIssuer stdioUser jwksUri issuer audience) base
      { request with xUserId := xUserId } =
    resolveUserId (verifiedSettings jwt jwks workosIssuer stdioUser jwksUri issuer audience) base
      request := rfl

theorem resolveUserId_ok {base userId : String} :
    resolveUserId (verifiedSettings jwt jwks workosIssuer stdioUser jwksUri issuer audience) base
        request = .ok userId ↔
      ∃ token, extractBearer request = some token ∧
        Verifies jwt jwks issuer audience jwksUri token userId := by
  unfold resolveUserId
  dsimp only [verifiedSettings]
  cases hbearer : extractBearer request with
  | none => simp
  | some token =>
    simp only [Option.some.injEq, exists_eq_left', ← validateToken_user]
    cases validateToken jwt jwks issuer audience jwksUri token <;> simp

theorem resolveUserId_unauthorized (workosIssuer : Option String) (stdioUser base : String)
    (hraised : ∀ token, extractBearer request = some token →
      validateToken jwt jwks issuer audience jwksUri token ≠ .raised)
    (huser : ∀ token, extractBearer request = some token →
      ∀ userId, ¬Verifies jwt jwks issuer audience jwksUri token userId) :
    ∃ detail, resolveUserId
      (verifiedSettings jwt jwks workosIssuer stdioUser jwksUri issuer audience) base request =
        .error (.unauthorized detail (wwwAuthenticateHeader
          (verifiedSettings jwt jwks workosIssuer stdioUser jwksUri issuer audience) base)) := by
  unfold resolveUserId
  dsimp only [verifiedSettings]
  cases hbearer : extractBearer request with
  | none => exact ⟨_, rfl⟩
  | some token =>
    obtain ⟨detail, hdetail⟩ := validateToken_invalid (hraised token hbearer) (huser token hbearer)
    exact ⟨detail, by simp only [hdetail]⟩

/-- A request is treated as it should be just when the lookup of the key for its token, if it has
one, finds a key or raises `InvalidTokenError`. -/
theorem badTokens_unauthorized_iff (jwt : PyJwt Jwks Key) (jwks : Jwks)
    (workosIssuer : Option String) (stdioUser jwksUri issuer audience : String)
    (cfg : Mcp.Settings Blob) (lib : CreateLibs) (libs : Libs) (fromisoformat : String → Option Int)
    (request : HttpRequest) :
    BadTokensUnauthorized jwt jwks workosIssuer stdioUser jwksUri issuer audience cfg lib libs
        fromisoformat request ↔
      ∀ token, extractBearer request = some token →
        ∀ e, jwt.getSigningKeyFromJwt jwks jwksUri token = .error e → e.isInvalidToken = true := by
  constructor
  · intro h token hbearer e hlookup
    by_contra hfamily
    rw [Bool.not_eq_true] at hfamily
    exact h.one_failure token hbearer (validateToken_raised.mpr ⟨e, hlookup, hfamily⟩)
  · intro h
    have hraised : ∀ token, extractBearer request = some token →
        validateToken jwt jwks issuer audience jwksUri token ≠ .raised := by
      intro token hbearer hraised
      obtain ⟨e, hlookup, hfamily⟩ := validateToken_raised.mp hraised
      rw [h token hbearer e hlookup] at hfamily
      cases hfamily
    refine ⟨hraised, fun huser load limitedAt meets w x hshed => ?_, fun xUserId userId => ?_⟩
    · obtain ⟨detail, hdetail⟩ :=
        resolveUserId_unauthorized workosIssuer stdioUser cfg.connectionsBaseUrl hraised huser
      exact ⟨detail, by simp only [endpoint, hshed, Bool.false_eq_true, if_false, hdetail]⟩
    · rw [resolveUserId_verified]
      exact resolveUserId_ok

end Endpoint

/-- A JWKS endpoint without keys: no lookup finds the key id of a token. -/
def keylessJwt : PyJwt Unit Unit where
  getSigningKeyFromJwt _ _ _ :=
    .error (.pyJwkClient "Unable to find a signing key that matches: \"k\"")
  decode _ _ _ _ := .error "Signature verification failed"

/-- A request with a token that names a key. -/
def unknownKeyRequest : HttpRequest :=
  ⟨some "Bearer eyJhbGciOiJSUzI1NiIsImtpZCI6ImsifQ.e30.c2ln", none, .callTool "task.list.v1"⟩

/-- The token is signed with a key that the endpoint does not have: `PyJWKClientError` leaves
`validate_token`, and the answer is no 401. -/
theorem unknownKey_not_unauthorized :
    ¬BadTokensUnauthorized keylessJwt () (some "issuer") "default-user" "jwks" "issuer" "audience"
        tightSettings plainCreateLibs plainLibs (fun _ => none) unknownKeyRequest ∧
      (endpoint (verifiedSettings keylessJwt () (some "issuer") "default-user" "jwks" "issuer"
        "audience") tightSettings plainCreateLibs plainLibs (fun _ => none) ⟨false, 0, 10⟩ 0
        unknownKeyRequest quietHour ⟨[], [], []⟩ ⟨⟨[], [], []⟩, ⟨1, 1, 1⟩⟩).1 =
          .internalServerError := by
  have hbearer : extractBearer unknownKeyRequest =
      some "eyJhbGciOiJSUzI1NiIsImtpZCI6ImsifQ.e30.c2ln" := by
    decide +kernel
  refine ⟨fun h => ?_, ?_⟩
  · exact h.one_failure _ hbearer rfl
  · simp only [endpoint, resolveUserId, verifiedSettings, hbearer, validateToken, keylessJwt,
      Bool.false_eq_true, if_false]

end TaskScheduler.Auth
