import TaskScheduler.Connections.Store

/-! The OAuth flows of `app/web/connections.py`: the login, connect and callback routes, and the
browsers that call them, each with the cookies that it holds.  A request and its response are one
step. -/

namespace TaskScheduler.Web

open Connections

/-- The providers with a connect route. -/
inductive Provider
  | github
  | slack
  | google
  deriving DecidableEq, Repr

/-- Who hands out the code of a callback. -/
inductive Flow
  | workos
  | provider (p : Provider)
  deriving DecidableEq, Repr

/-- The slug of the connection store. -/
def Provider.slug : Provider → String
  | .github => "github"
  | .slack => "slack"
  | .google => "google"

/-- The settings that the routes read, and `secrets.token_urlsafe`, whose draws do not repeat. -/
structure Config (Blob : Type) where
  workosEnabled : Bool
  clientId : Provider → Bool
  envelope : Option (KmsEnvelope Blob)
  fromisoformat : String → Option Int
  stdioUser : String
  tokenUrlsafe : Nat → String
  tokenUrlsafe_injective : ∀ m n, tokenUrlsafe m = tokenUrlsafe n → m = n
  tokenUrlsafe_ne : ∀ n, tokenUrlsafe n ≠ ""

/-! ### Responses -/

/-- The body of a response, or where it redirects to. -/
inductive Page
  | redirect (location : String)
  | authorize (flow : Flow) (state : String)
  | html (body : String) (status : Nat)
  | serverError
  deriving DecidableEq, Repr

/-- A `Set-Cookie` header. -/
inductive SetCookie
  | set (value : String) (maxAge : Nat)
  | delete
  deriving DecidableEq, Repr

/-- A response, with what it does to the cookies `oauth_state` and `session`; the latter is signed,
and stands here for the user that it carries. -/
structure Response where
  page : Page
  stateCookie : Option SetCookie := none
  sessionCookie : Option SetCookie := none
  deriving DecidableEq, Repr

/-- `max_age` of the state cookie. -/
def stateMaxAge : Nat := 600

/-- `_SESSION_TTL`. -/
def sessionTtl : Nat := 24 * 60 * 60

/-- The value, unless Python takes it for false. -/
def truthy (s : Option String) : Option String := s.filter (· ≠ "")

/-- The redirect to an authorization page, with a fresh state. -/
def startFlow (flow : Flow) (state : String) : Response :=
  { page := .authorize flow state, stateCookie := some (.set state stateMaxAge) }

/-- `stored_state and state != stored_state`. -/
def stateMismatch (storedState state : Option String) : Bool :=
  (truthy storedState).any fun s => decide (state ≠ some s)

section Routes

variable {Blob : Type}

/-! ### WorkOS -/

/-- `_connections_login`; `state` is what `token_urlsafe` draws. -/
def connectionsLogin (cfg : Config Blob) (state : String) : Response :=
  if cfg.workosEnabled then startFlow .workos state
  else
    { page := .redirect "/connections", sessionCookie := some (.set cfg.stdioUser sessionTtl) }

/-- What the exchange of a WorkOS code ends with: an error, a body that cannot be read (it does not
parse as JSON, or is no object), or one with an access token, the subject that it validates to, that
of the verified id_token, and the user object. -/
inductive WorkosReply
  | requestError (exc : String)
  | failed (text : String)
  | unreadable
  | body (accessToken subject idTokenSubject userObject : Option String)

/-- The user of a reply: the first of the three that is not empty. -/
def WorkosReply.userId (accessSubject idTokenSubject userObject : Option String) : Option String :=
  match accessSubject with
  | some userId => (truthy (some userId)).or (truthy userObject)
  | none => (truthy idTokenSubject).or (truthy userObject)

/-- `_workos_auth_callback`. -/
def workosAuthCallback (code state storedState : Option String) (reply : WorkosReply) : Response :=
  match truthy code with
  | none => { page := .html "Missing code parameter" 400 }
  | some _ =>
    if stateMismatch storedState state then { page := .html "Invalid state parameter" 400 }
    else
      match reply with
      | .requestError exc => { page := .html ("Auth error: " ++ exc) 502 }
      | .failed text => { page := .html ("Token exchange failed: " ++ text) 502 }
      -- the exception of `resp.json()` or `token_data.get` is not caught
      | .unreadable => { page := .serverError }
      | .body accessToken subject idTokenSubject userObject =>
        match truthy accessToken with
        | none => { page := .html "No access_token in response" 502 }
        | some _ =>
          match WorkosReply.userId subject idTokenSubject userObject with
          | none => { page := .html "Could not determine user identity from token" 502 }
          | some userId =>
            { page := .redirect "/connections", sessionCookie := some (.set userId sessionTtl),
              stateCookie := some .delete }

/-! ### The providers -/

/-- The connect routes: `notConfigured` is shown without a client id. -/
def connect (provider : Provider) (notConfigured : String) (cfg : Config Blob)
    (userId : Option String) (state : String) : Response :=
  match truthy userId with
  | none => { page := .redirect "/connections/login" }
  | some _ =>
    if cfg.clientId provider then startFlow (.provider provider) state
    else { page := .html notConfigured 503 }

/-- `_github_connect`. -/
def githubConnect (cfg : Config Blob) (userId : Option String) (state : String) : Response :=
  connect .github "GitHub OAuth not configured (GITHUB_CLIENT_ID missing)" cfg userId state

/-- `_slack_connect`. -/
def slackConnect (cfg : Config Blob) (userId : Option String) (state : String) : Response :=
  connect .slack "Slack OAuth not configured (SLACK_CLIENT_ID missing)" cfg userId state

/-- `_google_connect`. -/
def googleConnect (cfg : Config Blob) (userId : Option String) (state : String) : Response :=
  connect .google "Google OAuth not configured (GOOGLE_CLIENT_ID missing)" cfg userId state

/-- The callback routes: the response, and the rows of the store after the commit.  `exchange` is
what the exchange of the code ends with, and `nonce` what the encryption draws. -/
def callback (provider : Provider) (name : String) (cfg : Config Blob)
    (rows : List (OAuthConnection Blob)) (userId code state storedState : Option String)
    (exchange : Except String JsonObject) (nonce : Nat) :
    Response × Option (List (OAuthConnection Blob)) :=
  match truthy userId with
  | none => ({ page := .redirect "/connections/login" }, none)
  | some userId =>
    match truthy code with
    | none => ({ page := .html ("Missing code parameter from " ++ name) 400 }, none)
    | some _ =>
      if stateMismatch storedState state then
        ({ page := .html "Invalid state — possible CSRF" 400 }, none)
      else
        match cfg.envelope with
        | none =>
          ({ page := .html (name ++ " connection could not be stored (KMS not configured)") 503 },
            none)
        | some envelope =>
          match exchange with
          | .error exc => ({ page := .html (name ++ " token exchange failed: " ++ exc) 502 }, none)
          | .ok tokenData =>
            match upsert envelope cfg.fromisoformat nonce userId provider.slug tokenData
              { committed := rows, session := rows } with
            | (.error _, _) => ({ page := .serverError }, none)
            | (.ok (), w) =>
              ({ page := .redirect "/connections", stateCookie := some .delete }, some w.session)

/-- `_github_callback`. -/
def githubCallback (cfg : Config Blob) (rows : List (OAuthConnection Blob))
    (userId code state storedState : Option String) (exchange : Except String JsonObject)
    (nonce : Nat) : Response × Option (List (OAuthConnection Blob)) :=
  callback .github "GitHub" cfg rows userId code state storedState exchange nonce

/-- `_slack_callback`. -/
def slackCallback (cfg : Config Blob) (rows : List (OAuthConnection Blob))
    (userId code state storedState : Option String) (exchange : Except String JsonObject)
    (nonce : Nat) : Response × Option (List (OAuthConnection Blob)) :=
  callback .slack "Slack" cfg rows userId code state storedState exchange nonce

/-- `_google_callback`. -/
def googleCallback (cfg : Config Blob) (rows : List (OAuthConnection Blob))
    (userId code state storedState : Option String) (exchange : Except String JsonObject)
    (nonce : Nat) : Response × Option (List (OAuthConnection Blob)) :=
  callback .google "Google" cfg rows userId code state storedState exchange nonce

/-! ### Browsers -/

/-- A cookie in a browser, until it expires. -/
structure Cookie where
  value : String
  expires : Int
  deriving DecidableEq, Repr

/-- The cookies of one browser. -/
structure Jar where
  session : Option Cookie := none
  oauthState : Option Cookie := none
  deriving DecidableEq, Repr

/-- The cookie as it is sent. -/
def Cookie.sent (now : Int) (c : Option Cookie) : Option String :=
  (c.filter fun c => decide (now < c.expires)).map (·.value)

/-- The browser's cookie after a response. -/
def SetCookie.apply (now : Int) (old : Option Cookie) : Option SetCookie → Option Cookie
  | none => old
  | some (.set value maxAge) => some ⟨value, now + maxAge⟩
  | some .delete => none

def Jar.receive (now : Int) (jar : Jar) (response : Response) : Jar where
  session := SetCookie.apply now jar.session response.sessionCookie
  oauthState := SetCookie.apply now jar.oauthState response.stateCookie

/-- The requests to the login, connect and callback routes. -/
inductive Request
  | login
  | connect (p : Provider)
  | authCallback (code state : Option String) (reply : WorkosReply)
  | callback (p : Provider) (code state : Option String) (exchange : Except String JsonObject)
      (nonce : Nat)

/-- The entries of the record: a state was issued to a browser, or a callback of it was accepted,
with the `state` parameter that it had. -/
inductive Event
  | issued (browser : Nat) (flow : Flow) (state : String)
  | accepted (browser : Nat) (flow : Flow) (state : Option String)
  deriving DecidableEq, Repr

/-- The server and the browsers.  `drawn` counts the states that were issued; the record has the
newest entry first. -/
structure State (Blob : Type) where
  clock : Int := 0
  drawn : Nat := 0
  rows : List (OAuthConnection Blob) := []
  jars : Nat → Jar := fun _ => {}
  events : List Event := []

/-- Time passes, or a browser sends a request.  It does so without cookies if another site's page
has it embedded, and then leaves those of the response aside (`SameSite=Lax`). -/
inductive Act
  | tick (seconds : Nat)
  | request (browser : Nat) (embedded : Bool) (r : Request)

def connectRoute (p : Provider) (cfg : Config Blob) (userId : Option String) (state : String) :
    Response :=
  match p with
  | .github => githubConnect cfg userId state
  | .slack => slackConnect cfg userId state
  | .google => googleConnect cfg userId state

def callbackRoute (p : Provider) (cfg : Config Blob) (rows : List (OAuthConnection Blob))
    (userId code state storedState : Option String) (exchange : Except String JsonObject)
    (nonce : Nat) : Response × Option (List (OAuthConnection Blob)) :=
  match p with
  | .github => githubCallback cfg rows userId code state storedState exchange nonce
  | .slack => slackCallback cfg rows userId code state storedState exchange nonce
  | .google => googleCallback cfg rows userId code state storedState exchange nonce

namespace State

/-- The cookies that a request of the browser carries. -/
def sentJar (σ : State Blob) (browser : Nat) (embedded : Bool) : Jar :=
  if embedded then {} else σ.jars browser

/-- The browser takes the cookies of the response. -/
def receive (σ : State Blob) (browser : Nat) (embedded : Bool) (response : Response) : State Blob :=
  if embedded then σ
  else
    { σ with jars := fun b =>
        if b = browser then (σ.jars b).receive σ.clock response else σ.jars b }

/-- The record of a response of the login and connect routes. -/
def issue (σ : State Blob) (browser : Nat) (response : Response) : State Blob :=
  match response.page with
  | .authorize flow state =>
    { σ with drawn := σ.drawn + 1, events := .issued browser flow state :: σ.events }
  | _ => σ

def step (cfg : Config Blob) (σ : State Blob) : Act → State Blob
  | .tick seconds => { σ with clock := σ.clock + seconds }
  | .request browser embedded r =>
    let jar := σ.sentJar browser embedded
    let userId := Cookie.sent σ.clock jar.session
    let storedState := Cookie.sent σ.clock jar.oauthState
    match r with
    | .login =>
      let response := connectionsLogin cfg (cfg.tokenUrlsafe σ.drawn)
      (σ.issue browser response).receive browser embedded response
    | .connect p =>
      let response := connectRoute p cfg userId (cfg.tokenUrlsafe σ.drawn)
      (σ.issue browser response).receive browser embedded response
    | .authCallback code state reply =>
      let response := workosAuthCallback code state storedState reply
      let σ := σ.receive browser embedded response
      if response.sessionCookie.isSome then
        { σ with events := .accepted browser .workos state :: σ.events }
      else σ
    | .callback p code state exchange nonce =>
      match callbackRoute p cfg σ.rows userId code state storedState exchange nonce with
      | (response, none) => σ.receive browser embedded response
      | (response, some rows) =>
        let σ := σ.receive browser embedded response
        { σ with rows := rows, events := .accepted browser (.provider p) state :: σ.events }

end State

end Routes

end TaskScheduler.Web
