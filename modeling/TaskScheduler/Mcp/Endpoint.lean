import TaskScheduler.Mcp.TaskCreate

/-! The HTTP endpoint of `app/entrypoints/mcp_http.py`: the checks that every request meets before
the MCP server sees it.  Its rate limit is that of `task.create.v1`, but it does not know what a
request asks for, and it does not spare the operator. -/

namespace TaskScheduler.Mcp

open Ratelimit Connections

/-! ### The endpoint -/

/-- `BearerVerifyPosture` of `app/auth/posture.py`. -/
inductive Posture
  | trustOnly
  | bearerVerified (jwksUri issuer audience : String)

/-- What `validate_token` does with a token: it returns the user, raises `TokenValidationError`, or
raises something else. -/
inductive TokenResult
  | user (userId : String)
  | invalid (detail : String)
  | raised

/-- What the endpoint is configured with, besides the settings of `task.create.v1`; `validateToken`
takes the issuer, the audience and the JWKS address before the token, and `stdioUser` is the user of
`resolve_user_id_stdio`. -/
structure HttpSettings where
  posture : Posture
  workosIssuer : Option String
  validateToken : String → String → String → String → TokenResult
  stdioUser : String

/-- What a request asks the MCP server for; only the arguments of `task.create.v1` are read here. -/
inductive Message
  | createTask (args : CreateArguments)
  | callTool (name : String)
  | readResource (uri : String)
  | other (method : String)

structure HttpRequest where
  authorization : Option String
  xUserId : Option String
  message : Message

/-- The answer; `served` is that of the MCP server, with the envelope of a `task.create.v1`. -/
inductive Response
  | serviceUnavailable (message : String) (retryAfterSeconds : Nat)
  | unauthorized (detail wwwAuthenticate : String)
  | tooManyRequests (reason message : String) (retryAfterSeconds : Int)
  | internalServerError
  | served (userId : String) (reply : Option CreateReply)
  deriving DecidableEq

/-- `_www_authenticate_header`. -/
def wwwAuthenticateHeader (http : HttpSettings) (connectionsBaseUrl : String) : String :=
  match http.workosIssuer.filter (· ≠ "") with
  | none => "Bearer realm=\"task-scheduler-mcp\""
  | some _ =>
    "Bearer realm=\"task-scheduler-mcp\", resource_metadata=\"" ++ connectionsBaseUrl ++
      "/.well-known/oauth-protected-resource\""

/-- `_extract_bearer`. -/
def extractBearer (request : HttpRequest) : Option String :=
  let auth := (request.authorization.getD "").toList
  if "bearer ".toList.isPrefixOf (auth.flatMap lowerChar) then
    let token := strip (auth.drop 7)
    if token.isEmpty then none else some (String.ofList token)
  else none

/-- `_resolve_user_id`; an exception that it does not catch is answered by the server. -/
def resolveUserId (http : HttpSettings) (connectionsBaseUrl : String) (request : HttpRequest) :
    Except Response String :=
  match http.posture with
  | .trustOnly => .ok ((request.xUserId.filter (· ≠ "")).getD http.stdioUser)
  | .bearerVerified jwksUri issuer audience =>
    match extractBearer request with
    | none =>
      .error (.unauthorized "Bearer token required" (wwwAuthenticateHeader http connectionsBaseUrl))
    | some token =>
      match http.validateToken issuer audience jwksUri token with
      | .user userId => .ok userId
      | .invalid detail =>
        .error (.unauthorized detail (wwwAuthenticateHeader http connectionsBaseUrl))
      | .raised => .error .internalServerError

/-- The load of the server when a request comes: what `should_shed` says, and the requests that the
limiter counts against its limit. -/
structure Load where
  shed : Bool
  inflight : Nat
  concurrencyLimit : Nat

section Endpoint

variable {Blob : Type} (http : HttpSettings) (cfg : Settings Blob) (lib : CreateLibs) (libs : Libs)
  (fromisoformat : String → Option Int)

/-- The answer to a request over the limit. -/
def tooManyRequests (reason : String) (retryAfterSeconds : Int) : Response :=
  .tooManyRequests reason ("Rate limit exceeded (" ++ reason ++ "). Retry after " ++
    toString retryAfterSeconds ++ " seconds.") retryAfterSeconds

/-- `_handle_mcp`: the MCP server of the user handles the message. -/
def handleMcp (userId : String) (message : Message) (meets : Meets) (w : World Blob) (x : Db) :
    Response × Db :=
  match message with
  | .createTask args =>
    let (reply, x) := handleTaskCreate cfg lib libs fromisoformat none userId args meets w x
    (.served userId (some reply), x)
  | .callTool _ | .readResource _ | .other _ => (.served userId none, x)

/-- `_McpHttpEndpoint.__call__`, with the rate limit checked at `limitedAt`. -/
def endpoint (load : Load) (limitedAt : Int) (request : HttpRequest) (meets : Meets)
    (w : World Blob) (x : Db) : Response × Db :=
  if load.shed then
    (.serviceUnavailable "Service is temporarily overloaded. Please retry later."
      cfg.overloadRetryAfterSeconds, x)
  else
    match resolveUserId http cfg.connectionsBaseUrl request with
    | .error response => (response, x)
    | .ok userId =>
      match checkRateLimit userId x.tables.jobs cfg.rateLimits limitedAt with
      | .error _ => (.internalServerError, x)
      | .ok (.reject reason retryAfterSeconds) => (tooManyRequests reason retryAfterSeconds, x)
      | .ok .allow =>
        if load.inflight ≥ load.concurrencyLimit then
          (.serviceUnavailable "Too many concurrent requests. Please retry later."
            cfg.overloadRetryAfterSeconds, x)
        else handleMcp cfg lib libs fromisoformat userId request.message meets w x

end Endpoint

/-! ### The two gates -/

/-- The envelope of a rejection by the rate limit of `task.create.v1`. -/
def rateLimitExceeded (reason : String) (retryAfterSeconds : Int) : CreateReply :=
  .error "USER_INPUT" ("Rate limit exceeded: " ++ reason) (some "user_id")
    (some (.retryAfterSeconds retryAfterSeconds)) none

/-- The history of a user reaches a limit: that of the minute, or else that of the day. -/
def AtLimit (userId : String) (jobs : List Job) (limits : RateLimits) (now : Int) : Prop :=
  (limits.burst ≤ createdSince jobs userId (now - minute) ∧
    0 < createdSince jobs userId (now - minute)) ∨
  (createdSince jobs userId (now - minute) < limits.burst ∧
    limits.daily ≤ createdSince jobs userId (now - day) ∧
    0 < createdSince jobs userId (now - day))

theorem atLimit_iff {userId : String} {jobs : List Job} {limits : RateLimits} {now : Int} :
    AtLimit userId jobs limits now ↔ ∃ reason retryAfterSeconds,
      checkRateLimit userId jobs limits now = .ok (.reject reason retryAfterSeconds) := by
  constructor
  · rintro (⟨hle, hpos⟩ | ⟨hlt, hle, hpos⟩)
    · obtain ⟨_, -, -, h⟩ := rejects_burst limits hle hpos
      exact ⟨_, _, h⟩
    · obtain ⟨_, -, -, h⟩ := rejects_daily limits hlt hle hpos
      exact ⟨_, _, h⟩
  · rintro ⟨reason, retry, h⟩
    obtain ⟨-, -, e, he⟩ | ⟨hle, oldest, hmem, -⟩ |
        ⟨hlt, ⟨-, -, e, he⟩ | ⟨hle, oldest, hmem, -⟩ | ⟨-, he⟩⟩ :=
      checkRateLimit_cases userId jobs limits now
    · rw [he] at h
      cases h
    · exact .inl ⟨hle, createdSince_pos hmem⟩
    · rw [he] at h
      cases h
    · exact .inr ⟨hlt, hle, createdSince_pos hmem⟩
    · rw [he] at h
      cases h

section Agree

variable {Blob : Type} {http : HttpSettings} {cfg : Settings Blob} {lib : CreateLibs} {libs : Libs}
  {fromisoformat : String → Option Int} {load : Load} {limitedAt : Int} {request : HttpRequest}
  {meets : Meets} {w : World Blob} {x : Db}

theorem resolveUserId_not_tooManyRequests {base reason message : String} {retry : Int} :
    resolveUserId http base request ≠ .error (.tooManyRequests reason message retry) := by
  unfold resolveUserId
  split
  · exact nofun
  · split
    · exact nofun
    · split <;> exact nofun

/-- The endpoint limits a request before it looks at its message. -/
theorem endpoint_tooManyRequests {reason : String} {retry : Int} :
    (∃ message, (endpoint http cfg lib libs fromisoformat load limitedAt request meets w x).1 =
        .tooManyRequests reason message retry) ↔
      load.shed = false ∧ ∃ userId,
        resolveUserId http cfg.connectionsBaseUrl request = .ok userId ∧
        checkRateLimit userId x.tables.jobs cfg.rateLimits limitedAt =
          .ok (.reject reason retry) := by
  unfold endpoint
  cases hshed : load.shed with
  | true => simp
  | false =>
    simp only [Bool.false_eq_true, if_false, true_and]
    cases huser : resolveUserId http cfg.connectionsBaseUrl request with
    | error response =>
      have hne : ∀ message, response ≠ .tooManyRequests reason message retry := by
        rintro message rfl
        exact resolveUserId_not_tooManyRequests huser
      simpa using hne
    | ok userId =>
      simp only [Except.ok.injEq, exists_eq_left']
      split
      · next h => simp [h]
      · next reason' retry' h =>
        rw [h]
        constructor
        · rintro ⟨message, heq⟩
          obtain ⟨rfl, -, rfl⟩ := Response.tooManyRequests.inj heq
          rfl
        · intro heq
          obtain ⟨rfl, rfl⟩ := RateLimitDecision.reject.inj (Except.ok.inj heq)
          exact ⟨_, rfl⟩
      · next h =>
        simp only [h, Except.ok.injEq, reduceCtorEq, iff_false, not_exists]
        intro message
        split
        · exact nofun
        · unfold handleMcp
          split <;> exact nofun

/-- Where the rate limit rejects, the handler says so to a user whose request comes to it. -/
theorem handleTaskCreate_rateLimitExceeded (lib : CreateLibs) (libs : Libs)
    (fromisoformat : String → Option Int) (args : CreateArguments) (meets : Meets) (w : World Blob)
    {userId reason : String} {retry : Int}
    (h : checkRateLimit userId x.tables.jobs cfg.rateLimits meets.checkedAt =
      .ok (.reject reason retry)) :
    (∃ retry', (handleTaskCreate cfg lib libs fromisoformat none userId args meets w x).1 =
        rateLimitExceeded reason retry') ↔
      ComesToLimits cfg lib args meets ∧ isOperator cfg.operatorUserId userId = false := by
  by_cases hcomes : ComesToLimits cfg lib args meets
  · obtain ⟨reply, hreply, heq⟩ := handleTaskCreate_late libs fromisoformat none userId w x hcomes
    rw [heq]
    cases hop : isOperator cfg.operatorUserId userId with
    | true =>
      simp only [if_true, Option.getD_none, Bool.true_eq_false, and_false, iff_false]
      rintro ⟨retry', rfl⟩
      exact hreply rfl
    | false =>
      have hgate : rateLimited cfg userId x.tables.jobs meets.checkedAt =
          some (rateLimitExceeded reason retry) := by
        simp only [rateLimited, h, rateLimitExceeded]
      unfold userGates
      simp only [Bool.false_eq_true, if_false, hgate, Option.some_or, Option.getD_some]
      exact ⟨fun _ => ⟨hcomes, trivial⟩, fun _ => ⟨retry, rfl⟩⟩
  · refine ⟨fun ⟨retry', heq⟩ => ?_, fun ⟨hc, _⟩ => absurd hc hcomes⟩
    have hfield := congrArg CreateReply.field heq
    exact absurd hfield (handleTaskCreate_early hcomes)

/-- The endpoint answers 429 only to a `task.create.v1` that the handler would itself reject for the
window, at the same instant and for the same history. -/
def LimitsAgree (http : HttpSettings) (cfg : Settings Blob) (lib : CreateLibs) (libs : Libs)
    (fromisoformat : String → Option Int) (load : Load) (limitedAt : Int) (request : HttpRequest)
    (meets : Meets) (w : World Blob) (x : Db) : Prop :=
  ∀ reason message retry,
    (endpoint http cfg lib libs fromisoformat load limitedAt request meets w x).1 =
      .tooManyRequests reason message retry →
    ∃ userId args retry', resolveUserId http cfg.connectionsBaseUrl request = .ok userId ∧
      request.message = .createTask args ∧
      (handleTaskCreate cfg lib libs fromisoformat none userId args
        { meets with checkedAt := limitedAt } w x).1 = rateLimitExceeded reason retry'

/-- The request is a `task.create.v1` that comes to the limits of the handler, by a user who is not
the operator. -/
def CreatesAsUser (cfg : Settings Blob) (lib : CreateLibs) (userId : String) (message : Message)
    (meets : Meets) : Prop :=
  isOperator cfg.operatorUserId userId = false ∧
    ∃ args, message = .createTask args ∧ ComesToLimits cfg lib args meets

/-- The gates agree just when the endpoint has no cause to limit the request, or limits one that
comes to the limits of the handler. -/
theorem limitsAgree_iff (http : HttpSettings) (cfg : Settings Blob) (lib : CreateLibs) (libs : Libs)
    (fromisoformat : String → Option Int) (load : Load) (limitedAt : Int) (request : HttpRequest)
    (meets : Meets) (w : World Blob) (x : Db) :
    LimitsAgree http cfg lib libs fromisoformat load limitedAt request meets w x ↔
      (load.shed = false → ∀ userId,
        resolveUserId http cfg.connectionsBaseUrl request = .ok userId →
        AtLimit userId x.tables.jobs cfg.rateLimits limitedAt →
        CreatesAsUser cfg lib userId request.message meets) := by
  constructor
  · intro h hshed userId huser hlimit
    obtain ⟨reason, retry, hcheck⟩ := atLimit_iff.mp hlimit
    obtain ⟨message, hanswer⟩ := endpoint_tooManyRequests.mpr ⟨hshed, userId, huser, hcheck⟩
    obtain ⟨userId', args, retry', huser', hmessage, hreply⟩ := h reason message retry hanswer
    obtain rfl := Except.ok.inj (huser.symm.trans huser')
    obtain ⟨hcomes, hop⟩ := (handleTaskCreate_rateLimitExceeded lib libs fromisoformat args
      { meets with checkedAt := limitedAt } w hcheck).mp ⟨retry', hreply⟩
    exact ⟨hop, args, hmessage, ⟨hcomes.secret, hcomes.depth, hcomes.trigger⟩⟩
  · intro h reason message retry hanswer
    obtain ⟨hshed, userId, huser, hcheck⟩ := endpoint_tooManyRequests.mp ⟨message, hanswer⟩
    obtain ⟨hop, args, hmessage, hcomes⟩ :=
      h hshed userId huser (atLimit_iff.mpr ⟨reason, retry, hcheck⟩)
    have hcomes' : ComesToLimits cfg lib args { meets with checkedAt := limitedAt } :=
      ⟨hcomes.secret, hcomes.depth, hcomes.trigger⟩
    obtain ⟨retry', hreply⟩ := (handleTaskCreate_rateLimitExceeded lib libs fromisoformat args
      { meets with checkedAt := limitedAt } w hcheck).mpr ⟨hcomes', hop⟩
    exact ⟨userId, args, retry', huser, hmessage, hreply⟩

end Agree

def trustOnlySettings : HttpSettings where
  posture := .trustOnly
  workosIssuer := none
  validateToken _ _ _ _ := .raised
  stdioUser := "default-user"

/-- Settings with an operator, and a limit of one job a minute. -/
def operatorSettings : Settings JsonObject :=
  { tightSettings with operatorUserId := some "operator", rateLimits := ⟨100, 1⟩ }

/-- A user who has just created a job asks for the status of it, and the operator, who has created
one too, for another job: both requests are answered with 429. -/
theorem limited_status_and_operator :
    ¬LimitsAgree trustOnlySettings operatorSettings plainCreateLibs plainLibs (fun _ => none)
        ⟨false, 0, 10⟩ 0 ⟨none, some "u", .callTool "task.status.v1"⟩ quietHour ⟨[], [], []⟩
        ⟨⟨[createdJob "u" (-second)], [], []⟩, ⟨2, 1, 1⟩⟩ ∧
      ¬LimitsAgree trustOnlySettings operatorSettings plainCreateLibs plainLibs (fun _ => none)
        ⟨false, 0, 10⟩ 0 ⟨none, some "operator", .createTask { action := some "echo" }⟩ quietHour
        ⟨[], [], []⟩ ⟨⟨[createdJob "operator" (-second)], [], []⟩, ⟨2, 1, 1⟩⟩ := by
  constructor
  · intro h
    obtain ⟨_, _, _, -, hmessage, -⟩ := h "burst"
      "Rate limit exceeded (burst). Retry after 59 seconds." 59 (by decide +kernel)
    cases hmessage
  · intro h
    obtain ⟨userId, args, retry', huser, hmessage, hreply⟩ := h "burst"
      "Rate limit exceeded (burst). Retry after 59 seconds." 59 (by decide +kernel)
    obtain rfl := Except.ok.inj (huser.symm.trans (rfl : _ = Except.ok "operator"))
    have hcheck : checkRateLimit "operator" [createdJob "operator" (-second)] ⟨100, 1⟩ 0 =
        .ok (.reject "burst" 59) := by
      decide
    -- the handler spares the operator
    have hop := ((handleTaskCreate_rateLimitExceeded _ _ _ _ _ _ hcheck).mp ⟨retry', hreply⟩).2
    exact absurd hop (by decide)

end TaskScheduler.Mcp
