import TaskScheduler.Actions.EmailSend
import TaskScheduler.Actions.Encoding
import TaskScheduler.Connections.Durable
import TaskScheduler.Db.Alone
import TaskScheduler.Domain.Views

/-! `EmailSendHandler.execute` of `app/actions/email_send.py`: the body, the connection, the
message, the dedup gate and the call of the provider, in the order of the source. -/

namespace TaskScheduler

/-! ### `str` of JSON data -/

def PyFloat.repr : PyFloat → PyStr
  | .finite literal => literal.val.map codePoint
  | .nan => PyStr.ofString "nan"
  | .infinity negative => PyStr.ofString (if negative then "-inf" else "inf")

mutual

/-- `repr` of what `json.loads` returns. -/
def PyJson.repr (lib : Printable) : PyJson → PyStr
  | .none => PyStr.ofString "None"
  | .bool b => PyStr.ofString (if b then "True" else "False")
  | .int n => PyStr.ofString n.val.repr
  | .float x => x.repr
  | .str s => s.repr lib
  | .list items => codePoint '[' :: reprItems lib items ++ [codePoint ']']
  | .dict fields => codePoint '{' :: reprFields lib fields ++ [codePoint '}']

def reprItems (lib : Printable) : List PyJson → PyStr
  | [] => []
  | v :: vs =>
    v.repr lib ++ (if vs.isEmpty then [] else PyStr.ofString ", " ++ reprItems lib vs)

def reprFields (lib : Printable) : List (PyStr × PyJson) → PyStr
  | [] => []
  | (k, v) :: kvs =>
    k.repr lib ++ PyStr.ofString ": " ++ v.repr lib ++
      (if kvs.isEmpty then [] else PyStr.ofString ", " ++ reprFields lib kvs)

end

/-- `str`. -/
def PyJson.text (lib : Printable) : PyJson → PyStr
  | .str s => s
  | v => v.repr lib

namespace Email

open Connections

/-! ### The body -/

/-- `_format_raw`. -/
def formatRaw (lib : Printable) (data : PyJson) (isError : Bool) : PyStr :=
  if isError then PyStr.ofString "Upstream error: " ++ data.text lib else data.text lib

/-- `_format_digest_v1`. -/
def formatDigestV1 (lib : Printable) (data : PyJson) (isError : Bool) : PyStr :=
  if isError then PyStr.ofString "Upstream error: " ++ data.text lib
  else
    match data with
    | .dict fields =>
      let lines := fields.map fun kv =>
        PyStr.ofString "- " ++ kv.1 ++ PyStr.ofString ": " ++ kv.2.text lib
      List.intercalate (PyStr.ofString "\n") (PyStr.ofString "Daily Digest" :: [] :: lines)
    | data => PyStr.ofString "Daily Digest\n\n" ++ data.text lib

/-- `_TEMPLATE_FORMATTERS`. -/
def templateFormatter (lib : Printable) : EmailTemplate → PyJson → Bool → PyStr
  | .raw => formatRaw lib
  | .digestV1 => formatDigestV1 lib

/-- `resolve_for_display`, past the read. -/
def resolveForDisplay (formatter : PyJson → Bool → PyStr) : UpstreamPayload PyJson → PyStr
  | .ok data => formatter data false
  | .upstreamError msg => formatter (.str (PyStr.ofString msg)) true
  | .noResult => formatter (.str (PyStr.ofString "(no result)")) true
  | .invalidJson raw =>
    let shown := "(invalid JSON: " ++ (raw.take 100).toString ++ ")"
    formatter (.str (PyStr.ofString shown)) true

/-! ### What the handler meets -/

/-- `ActionResult.result` of a send. -/
structure SendResult where
  recipients : List String
  subject : String
  provider : String
  providerMessageId : Option String
  deduped : Bool
  deriving DecidableEq, Repr

structure ActionResult where
  ok : Bool
  result : Option SendResult
  error : Option String
  errorCode : Option String := none
  retryable : Bool := true
  deriving DecidableEq, Repr

/-- How `execute` ends: it returns, or an exception leaves it. -/
inductive Outcome
  | raised
  | returned (res : ActionResult)
  deriving DecidableEq, Repr

/-- The token endpoint of Google after these refreshes: the object that it answers to a refresh
token, unless the request fails; the time that `expires_in` seconds lead to, unless it raises. -/
structure TokenEndpoint where
  isTrue : Json → Bool
  post : List (JsonObject × Option JsonObject) → Json → Option JsonObject
  isoformat : List (JsonObject × Option JsonObject) → Json → Option String

/-- How the call of the Gmail API ends: with an answer, with an error of the transport, or with
another exception. -/
inductive Answer
  | response (resp : Response)
  | requestError (exc : String)
  | raised

/-- The libraries, the settings, the readings of the clock and the services of one execution.
`mime` is the message with these recipients, this subject and this body, as base64. -/
structure Env (Blob : Type) where
  printable : Printable
  loads : String → Option PyJson
  mime : List String → String → PyStr → Option String
  envelope : Option (KmsEnvelope Blob)
  fromisoformat : String → Option Int
  connectionsBaseUrl : String
  endpoint : TokenEndpoint
  answer : Answer
  start : Int
  pick : Nat → Bool
  now : Int
  now' : Int
  now'' : Int
  nonce : Nat
  nonce' : Nat

/-- The rows that an execution reads and writes, and the messages that it posts. -/
structure World (Blob : Type) where
  db : Db
  connections : Connections.World Blob
  intents : List SendIntent
  sends : List String := []

/-- The columns of the run that the handler reads. -/
structure Run where
  runId : Nat
  userId : String
  deriving DecidableEq, Repr

section Execute

variable {Blob : Type}

/-- `_body_from_upstream`; the driver has no number outside of `bigint`, and no run has a negative
id. -/
def bodyFromUpstream (env : Env Blob) (db : Db) (userId : String) (fromRunId : Int)
    (formatter : PyJson → Bool → PyStr) : Except Outcome PyStr :=
  if fromRunId < -2 ^ 63 ∨ 2 ^ 63 ≤ fromRunId then .error .raised
  else if fromRunId < 0 then .ok (resolveForDisplay formatter .noResult)
  else
    match db.alone env.start env.pick (readUpstream env.loads fromRunId.toNat userId) with
    | some (.ok payload, _) => .ok (resolveForDisplay formatter payload)
    | _ => .error .raised

/-- `_build_body`. -/
def buildBody (env : Env Blob) (db : Db) (userId : String) (params : EmailSendParams) :
    Except Outcome PyStr :=
  let formatter := templateFormatter env.printable (params.template.getD .raw)
  match params.fromRunId with
  | some fromRunId => bodyFromUpstream env db userId fromRunId formatter
  | none =>
    match params.body with
    | some body => .ok (PyStr.ofString body)
    | none =>
      .error (.returned { ok := false, result := none, retryable := false,
                          error := some "Either body or from_run_id must be provided" })

/-- `_make_google_refresher`. -/
def makeGoogleRefresher (endpoint : TokenEndpoint) : TokenRefresher := fun log tokenData =>
  match (tokenData.get "refresh_token").filter endpoint.isTrue with
  | none => some tokenData
  | some refreshToken => do
    let newData ← endpoint.post log refreshToken
    let newData ← match newData.get "expires_in" with
      | none => some newData
      | some seconds =>
        (endpoint.isoformat log seconds).map fun at_ => newData.set "expires_at" (.str at_)
    let newData :=
      if (newData.get "refresh_token").isNone then newData.set "refresh_token" refreshToken
      else newData
    return newData.foldl (fun o kv => o.set kv.1 kv.2) tokenData

/-- `refresh_window_seconds`, in microseconds. -/
def refreshWindow : Int := 300 * 1000000

/-- `missing_connection_result("google")`. -/
def missingConnectionResult (connectionsBaseUrl : String) : ActionResult where
  ok := false
  result := none
  error := some ("Your Google connection has expired or been revoked. " ++
    "Reconnect at " ++ connectionsBaseUrl ++ "/connections")
  errorCode := some "MISSING_CONNECTION"
  retryable := false

/-- `safe_subject`. -/
def safeSubject (subject : String) : String :=
  String.ofList (subject.toList.map fun c => if c = '\r' ∨ c = '\n' then ' ' else c)

/-- `_ok_result`. -/
def okResult (params : EmailSendParams) (providerMessageId : Option String) (deduped : Bool) :
    ActionResult where
  ok := true
  result := some ⟨params.to_, params.subject, "gmail", providerMessageId, deduped⟩
  error := none
  retryable := false

/-- The call of the provider, once the gate is open, and the mark. -/
def callGmail (env : Env Blob) (run : Run) (params : EmailSendParams) (raw : String)
    (w : World Blob) : Outcome × World Blob :=
  let w := { w with sends := w.sends ++ [raw] }
  match env.answer with
  | .raised => (.raised, w)
  | .requestError exc => (.returned { ok := false, result := none, error := some exc }, w)
  | .response resp =>
    match resp.error with
    | some (error, retryable) =>
      (.returned { ok := false, result := none, error := some error, retryable := retryable }, w)
    | none =>
      let key := deriveIdempotencyKey "email_send" run.runId
      (.returned (okResult params resp.messageId false),
        { w with intents := markSent w.intents key resp.messageId })

/-- The dedup gate and what comes after it. -/
def sendOnce (env : Env Blob) (run : Run) (params : EmailSendParams) (raw : String)
    (w : World Blob) : Outcome × World Blob :=
  let (intents, gate) :=
    begin_ w.intents (deriveIdempotencyKey "email_send" run.runId) run.runId
  let w := { w with intents := intents }
  if gate.decision = .skip then (.returned (okResult params gate.providerMessageId true), w)
  else callGmail env run params raw w

/-- `_send_via_gmail`. -/
def sendViaGmail (env : Env Blob) (run : Run) (params : EmailSendParams) (bodyText : PyStr)
    (w : World Blob) : Outcome × World Blob :=
  let (token, connections) := gmailToken env.envelope env.fromisoformat
    (makeGoogleRefresher env.endpoint) refreshWindow env.now env.now' env.now'' env.nonce env.nonce'
    run.userId w.connections
  let w := { w with connections := connections }
  match token with
  | .noUser =>
    (.returned { ok := false, result := none, retryable := false,
                 error := some ("email_send: no user_id on run — cannot resolve Google " ++
                   "connection") }, w)
  | .missingConnection => (.returned (missingConnectionResult env.connectionsBaseUrl), w)
  | .raised _ => (.raised, w)
  | .token _ =>
    match env.mime params.to_ (safeSubject params.subject) bodyText with
    | none => (.raised, w)
    | some raw => sendOnce env run params raw w

/-- `EmailSendHandler.execute`. -/
def execute (env : Env Blob) (run : Run) (params : EmailSendParams) (w : World Blob) :
    Outcome × World Blob :=
  match buildBody env w.db run.userId params with
  | .error outcome => (outcome, w)
  | .ok bodyText => sendViaGmail env run params bodyText w

end Execute

end Email

end TaskScheduler
