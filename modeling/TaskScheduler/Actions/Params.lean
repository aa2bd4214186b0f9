import TaskScheduler.Config.Cron

/-! The `params_model` of every registered action (`app/actions/*.py`): the fields of each, how
pydantic reads them from the stored JSON object, and the rules across fields. -/

namespace TaskScheduler

/-! ### JSON -/

inductive Json
  | null
  | bool (b : Bool)
  | int (n : Int)
  | float (literal : String)
  | str (s : String)
  | arr (items : List Json)
  | obj (fields : List (String × Json))

/-- A stored JSON object, by key. -/
abbrev JsonObject := List (String × Json)

namespace JsonObject

def get (o : JsonObject) (key : String) : Option Json := (o.find? fun kv => kv.1 == key).map (·.2)

def set (o : JsonObject) (key : String) (v : Json) : JsonObject :=
  o.filter (fun kv => kv.1 != key) ++ [(key, v)]

/-- The field is missing or null. -/
def Unset (o : JsonObject) (key : String) : Prop := o.get key = none ∨ o.get key = some .null

variable {o : JsonObject} {key key' : String} {v : Json}

theorem get_set_self : (o.set key v).get key = some v := by
  unfold get set
  have hnone : (o.filter fun kv => kv.1 != key).find? (fun kv => kv.1 == key) = none := by
    simp [List.find?_eq_none]
  rw [List.find?_append, hnone]
  simp

theorem get_set_ne (h : key' ≠ key) : (o.set key v).get key' = o.get key' := by
  unfold get set
  rw [List.find?_append]
  have hfilter : (o.filter fun kv => kv.1 != key).find? (fun kv => kv.1 == key') =
      o.find? fun kv => kv.1 == key' := by
    rw [List.find?_filter]
    congr 1
    funext kv
    by_cases hk : kv.1 = key'
    · simp [hk, h]
    · simp [hk]
  rw [hfilter]
  simp [Ne.symm h]

theorem all_set {p : String → Bool} (hp : p key = true) :
    ((o.set key v).all fun kv => p kv.1) = o.all fun kv => p kv.1 := by
  unfold set
  rw [List.all_append, List.all_filter]
  simp only [List.all_cons, hp, List.all_nil, Bool.and_true]
  congr 1
  funext kv
  by_cases hk : kv.1 = key
  · simp [hk, hp]
  · simp [hk]

end JsonObject

/-! ### Fields -/

/-- The calls into pydantic and email-validator: the integers that it reads from texts and from
floats, the addresses that it accepts, and the text of its error. -/
structure Pydantic where
  intOfStr : String → Option Int
  intOfFloat : String → Option Int
  emailStr : String → Option String
  errorText : String → JsonObject → String

namespace Pydantic

variable (lib : Pydantic)

/-- `int`, in lax mode. -/
def int : Json → Option Int
  | .int n => some n
  | .bool b => some (if b then 1 else 0)
  | .str s => lib.intOfStr s
  | .float literal => lib.intOfFloat literal
  | _ => none

def str : Json → Option String
  | .str s => some s
  | _ => none

def list {α : Type} (item : Json → Option α) : Json → Option (List α)
  | .arr items => items.mapM item
  | _ => none

def email : Json → Option String
  | .str s => lib.emailStr s
  | _ => none

/-- `dict[str, str]`. -/
def strDict : Json → Option (List (String × String))
  | .obj fields => fields.mapM fun kv => (str kv.2).map fun v => (kv.1, v)
  | _ => none

/-- A literal or a string enumeration. -/
def oneOf {α : Type} (values : List (String × α)) (v : Json) : Option α :=
  (str v).bind fun s => (values.find? fun x => x.1 == s).map (·.2)

/-- `Field(max_length=...)` on a string. -/
def strMax (max : Nat) (v : Json) : Option String :=
  (str v).bind fun s => if s.length ≤ max then some s else none

end Pydantic

namespace JsonObject

variable {α : Type}

/-- A field without a default. -/
def required (o : JsonObject) (key : String) (read : Json → Option α) : Option α :=
  (o.get key).bind read

/-- A field `T | None = None`. -/
def optional (o : JsonObject) (key : String) (read : Json → Option α) : Option (Option α) :=
  match o.get key with
  | none => some none
  | some .null => some none
  | some v => (read v).map some

/-- A field with a default. -/
def withDefault (o : JsonObject) (key : String) (value : α) (read : Json → Option α) : Option α :=
  match o.get key with
  | none => some value
  | some v => read v

/-- `extra="forbid"`. -/
def noExtra (o : JsonObject) (fields : List String) : Bool := o.all fun kv => decide (kv.1 ∈ fields)

end JsonObject

/-! ### The models -/

inductive SlackTemplate
  | raw
  | digestV1
  | interviewBrief
  deriving DecidableEq, Repr

def SlackTemplate.values : List (String × SlackTemplate) :=
  [("raw", .raw), ("digest_v1", .digestV1), ("interview_brief", .interviewBrief)]

inductive EmailTemplate
  | raw
  | digestV1
  deriving DecidableEq, Repr

def EmailTemplate.values : List (String × EmailTemplate) := [("raw", .raw), ("digest_v1", .digestV1)]

inductive SummaryStyle
  | bullet
  | paragraph
  deriving DecidableEq, Repr

def SummaryStyle.values : List (String × SummaryStyle) :=
  [("bullet", .bullet), ("paragraph", .paragraph)]

inductive SummaryLength
  | short
  | medium
  | long
  deriving DecidableEq, Repr

def SummaryLength.values : List (String × SummaryLength) :=
  [("short", .short), ("medium", .medium), ("long", .long)]

inductive PolishTone
  | professional
  | casual
  | concise
  deriving DecidableEq, Repr

def PolishTone.values : List (String × PolishTone) :=
  [("professional", .professional), ("casual", .casual), ("concise", .concise)]

/-- `sanitize_prompt_field`: line separators become spaces, and the other control characters go. -/
def sanitizePromptField (value : String) : String :=
  let separators := [0x0D, 0x0A, 0x85, 0x2028, 0x2029]
  String.ofList ((value.toList.map fun c => if c.toNat ∈ separators then ' ' else c).filter
    fun c => decide (0x20 ≤ c.toNat) && c.toNat != 0x7F)

structure SlackPostParams where
  channel : String
  message : Option String
  fromRunId : Option Int
  template : Option SlackTemplate
  deriving DecidableEq, Repr

structure EmailSendParams where
  to_ : List String
  subject : String
  body : Option String
  fromRunId : Option Int
  template : Option EmailTemplate
  deriving DecidableEq, Repr

structure LlmSummarizeParams where
  fromRunId : Option Int
  text : Option String
  style : SummaryStyle
  length : SummaryLength
  language : String
  focus : List String
  deriving DecidableEq, Repr

structure LlmPolishParams where
  fromRunId : Option Int
  text : Option String
  tone : PolishTone
  language : String
  deriving DecidableEq, Repr

/-- The parameters of an action, by its model. -/
inductive Params
  | echo (message : String)
  | httpCall (method url : String) (headers : Option (List (String × String))) (body : Option Json)
  | calendarDigestIcs (icsUrl : String) (dateRangeDays : Int) (titleContains : Option String)
  | slackPost (p : SlackPostParams)
  | githubDigest (repo : String) (labels : List String) (prStaleDays : Int)
  | emailSend (p : EmailSendParams)
  | llmSummarize (p : LlmSummarizeParams)
  | llmPolish (p : LlmPolishParams)

/-- `hasattr(params, "from_run_id")`, and its value. -/
def Params.fromRunId : Params → Option (Option Int)
  | .slackPost p => some p.fromRunId
  | .emailSend p => some p.fromRunId
  | .llmSummarize p => some p.fromRunId
  | .llmPolish p => some p.fromRunId
  | _ => none

/-- `params.model_copy(update={"from_run_id": ...})`, which validates nothing. -/
def Params.withFromRunId (runId : Int) : Params → Params
  | .slackPost p => .slackPost { p with fromRunId := some runId }
  | .emailSend p => .emailSend { p with fromRunId := some runId }
  | .llmSummarize p => .llmSummarize { p with fromRunId := some runId }
  | .llmPolish p => .llmPolish { p with fromRunId := some runId }
  | p => p

def validateEcho (o : JsonObject) : Option Params := do
  return .echo (← o.required "message" Pydantic.str)

/-- `dict | str | None`: the object or the text itself. -/
def httpBody : Json → Option Json
  | .obj fields => some (.obj fields)
  | .str s => some (.str s)
  | _ => none

def validateHttpCall (o : JsonObject) : Option Params := do
  let method ← o.required "method" Pydantic.str
  let url ← o.required "url" Pydantic.str
  let headers ← o.optional "headers" Pydantic.strDict
  let body ← o.optional "body" httpBody
  return .httpCall method url headers body

def validateCalendarDigestIcs (lib : Pydantic) (o : JsonObject) : Option Params := do
  let icsUrl ← o.required "ics_url" Pydantic.str
  let dateRangeDays ← o.withDefault "date_range_days" 1 lib.int
  let titleContains ← o.optional "title_contains" Pydantic.str
  return .calendarDigestIcs icsUrl dateRangeDays titleContains

def validateSlackPost (lib : Pydantic) (o : JsonObject) : Option Params := do
  let channel ← o.required "channel" Pydantic.str
  let message ← o.optional "message" Pydantic.str
  let fromRunId ← o.optional "from_run_id" lib.int
  let template ← o.optional "template" (Pydantic.oneOf SlackTemplate.values)
  return .slackPost ⟨channel, message, fromRunId, template⟩

def validateGithubDigest (lib : Pydantic) (o : JsonObject) : Option Params := do
  let repo ← o.required "repo" Pydantic.str
  let labels ← o.required "labels" (Pydantic.list Pydantic.str)
  let prStaleDays ← o.withDefault "pr_stale_days" 3 lib.int
  return .githubDigest repo labels prStaleDays

def validateEmailSend (lib : Pydantic) (o : JsonObject) : Option Params := do
  let to_ ← o.required "to" (Pydantic.list lib.email)
  let subject ← o.required "subject" Pydantic.str
  let body ← o.optional "body" Pydantic.str
  let fromRunId ← o.optional "from_run_id" lib.int
  let template ← o.optional "template" (Pydantic.oneOf EmailTemplate.values)
  return .emailSend ⟨to_, subject, body, fromRunId, template⟩

/-- `_exactly_one_input_source`. -/
def exactlyOneInputSource (fromRunId : Option Int) (text : Option String) : Bool :=
  fromRunId.isSome != text.isSome

/-- `_MAX_LANGUAGE_LEN`, `_MAX_FOCUS_ITEMS` and `_MAX_FOCUS_ITEM_LEN`. -/
def maxLanguageLen : Nat := 40

def maxFocusItems : Nat := 10

def maxFocusItemLen : Nat := 80

/-- The `language` field of the two LLM models. -/
def language (v : Json) : Option String :=
  (Pydantic.strMax maxLanguageLen v).map sanitizePromptField

/-- The `focus` field. -/
def focus (v : Json) : Option (List String) :=
  (Pydantic.list (Pydantic.strMax maxFocusItemLen) v).bind fun items =>
    if items.length ≤ maxFocusItems then some (items.map sanitizePromptField) else none

def llmSummarizeFields : List String := ["from_run_id", "text", "style", "length", "language", "focus"]

def validateLlmSummarize (lib : Pydantic) (o : JsonObject) : Option Params := do
  guard (o.noExtra llmSummarizeFields)
  let fromRunId ← o.optional "from_run_id" lib.int
  let text ← o.optional "text" Pydantic.str
  let style ← o.withDefault "style" .bullet (Pydantic.oneOf SummaryStyle.values)
  let length ← o.withDefault "length" .short (Pydantic.oneOf SummaryLength.values)
  let language ← o.withDefault "language" "en" language
  let focus ← o.withDefault "focus" [] focus
  guard (exactlyOneInputSource fromRunId text)
  return .llmSummarize ⟨fromRunId, text, style, length, language, focus⟩

def llmPolishFields : List String := ["from_run_id", "text", "tone", "language"]

def validateLlmPolish (lib : Pydantic) (o : JsonObject) : Option Params := do
  guard (o.noExtra llmPolishFields)
  let fromRunId ← o.optional "from_run_id" lib.int
  let text ← o.optional "text" Pydantic.str
  let tone ← o.withDefault "tone" .professional (Pydantic.oneOf PolishTone.values)
  let language ← o.withDefault "language" "en" language
  guard (exactlyOneInputSource fromRunId text)
  return .llmPolish ⟨fromRunId, text, tone, language⟩

/-- What the executor reads of a `params_model`: its fields, and `model_validate`. -/
structure ParamsModel where
  fields : List String
  validate : JsonObject → Option Params

/-- `ACTION_REGISTRY`, by the params model of the handler. -/
def paramsModel (lib : Pydantic) (action : String) : Option ParamsModel :=
  if action = "echo" then some ⟨["message"], validateEcho⟩
  else if action = "http_call" then some ⟨["method", "url", "headers", "body"], validateHttpCall⟩
  else if action = "calendar_digest_ics" then
    some ⟨["ics_url", "date_range_days", "title_contains"], validateCalendarDigestIcs lib⟩
  else if action = "slack_post" then
    some ⟨["channel", "message", "from_run_id", "template"], validateSlackPost lib⟩
  else if action = "github_digest" then
    some ⟨["repo", "labels", "pr_stale_days"], validateGithubDigest lib⟩
  else if action = "email_send" then
    some ⟨["to", "subject", "body", "from_run_id", "template"], validateEmailSend lib⟩
  else if action = "llm_summarize" then some ⟨llmSummarizeFields, validateLlmSummarize lib⟩
  else if action = "llm_polish" then some ⟨llmPolishFields, validateLlmPolish lib⟩
  else none

end TaskScheduler
