import TaskScheduler.Python.Reload

/-! `LLMClient.complete` of `app/llm/client.py`: one request to a Chat Completions endpoint, whose
answer may have any status and any body. -/

namespace TaskScheduler.Llm

/-! ### The client -/

structure LLMRequest where
  systemPrompt : String
  userMessage : String
  maxOutputTokens : Int
  deriving DecidableEq, Repr

/-- `LLMResponse`, with the values that the body has: nothing checks their types. -/
structure LLMResponse where
  content : PyJson
  inputTokens : PyJson
  outputTokens : PyJson

structure LLMClientError where
  message : PyStr
  retryable : Bool
  deriving DecidableEq, Repr

/-- How `complete` ends: it returns, it raises `LLMClientError`, or another exception leaves it. -/
inductive Outcome
  | returned (res : LLMResponse)
  | clientError (err : LLMClientError)
  | raised (e : PyException)

/-- The arguments of `post`; the messages by role. -/
structure Post where
  url : String
  model : String
  maxTokens : Int
  messages : List (String × String)
  headers : List (String × String)
  deriving DecidableEq, Repr

/-- A response: its status, its bytes, and the text that httpx decodes from these. -/
structure Response where
  statusCode : Nat
  content : Bytes
  text : PyStr
  deriving DecidableEq, Repr

/-- A request ends with a response, or with an exception of httpx, given by its text. -/
inductive Reply
  | response (resp : Response)
  | timeout (exc : String)
  | requestError (exc : String)
  deriving DecidableEq, Repr

structure LLMClient where
  apiKey : String
  baseUrl : String
  model : String
  deriving DecidableEq, Repr

/-- `LLMClient.__init__`, with `rstrip("/")`. -/
def LLMClient.init (apiKey baseUrl model : String) : LLMClient where
  apiKey := apiKey
  baseUrl := String.ofList (baseUrl.toList.reverse.dropWhile (· == '/')).reverse
  model := model

/-- The request that `complete` sends. -/
def LLMClient.post (client : LLMClient) (req : LLMRequest) : Post where
  url := client.baseUrl ++ "/chat/completions"
  model := client.model
  maxTokens := req.maxOutputTokens
  messages := [("system", req.systemPrompt), ("user", req.userMessage)]
  headers := [("Authorization", "Bearer " ++ client.apiKey), ("Content-Type", "application/json")]

/-- `is_success`. -/
def isSuccess (status : Nat) : Bool := 200 ≤ status && status ≤ 299

/-- The lookups in the body of a successful response. -/
def readBody (body : PyJson) : Except PyException LLMResponse := do
  let choices ← body.item "choices"
  let choice ← choices.first
  let message ← choice.item "message"
  let content ← message.item "content"
  let usage ← body.get "usage" (.dict [])
  let inputTokens ← usage.get "prompt_tokens" .zero
  let outputTokens ← usage.get "completion_tokens" .zero
  return ⟨content, inputTokens, outputTokens⟩

/-- `except (KeyError, IndexError, ValueError)`. -/
def caught : PyException → Bool
  | .keyError | .indexError | .valueError => true
  | _ => false

/-- A client error with a text and what follows it. -/
def clientError (text : String) (rest : PyStr) (retryable : Bool) : Outcome :=
  .clientError ⟨PyStr.ofString text ++ rest, retryable⟩

/-- `LLMClient.complete`; `str` is the text of the exception that reading a body raises. -/
def complete (client : LLMClient) (py : Interpreter) (str : Bytes → PyException → PyStr)
    (post : Post → Reply) (req : LLMRequest) : Outcome :=
  match post (client.post req) with
  | .timeout exc => clientError "LLM request timed out: " (PyStr.ofString exc) true
  | .requestError exc => clientError "LLM network error: " (PyStr.ofString exc) true
  | .response resp =>
    if resp.statusCode = 429 then
      clientError "LLM provider rate-limited (429): " (resp.text.take 200) true
    else if resp.statusCode ≥ 500 then
      clientError ("LLM provider server error (" ++ toString resp.statusCode ++ "): ")
        (resp.text.take 200) true
    else if !isSuccess resp.statusCode then
      clientError ("LLM provider error (" ++ toString resp.statusCode ++ "): ")
        (resp.text.take 200) false
    else
      match loads py resp.content >>= readBody with
      | .ok res => .returned res
      | .error e =>
        if caught e then clientError "Unexpected LLM response shape: " (str resp.content e) false
        else .raised e

/-! ### One failure mode -/

/-- What may go away when the request is repeated: timeouts, network errors, 429 and 5xx. -/
def Reply.Transient : Reply → Prop
  | .timeout _ | .requestError _ => True
  | .response resp =>
    resp.statusCode = 429 ∨ 500 ≤ resp.statusCode ∧ resp.statusCode ≤ 599

/-- The content is a string, and the counts are integers. -/
structure LLMResponse.WellTyped (res : LLMResponse) : Prop where
  content : ∃ s, res.content = .str s
  inputTokens : res.inputTokens.IsInt
  outputTokens : res.outputTokens.IsInt

/-- A well-typed response, or else `LLMClientError`, which says of just the transient replies that
they are retryable. -/
structure OneFailureMode (reply : Reply) (outcome : Outcome) : Prop where
  wellTyped : ∀ res, outcome = .returned res → res.WellTyped
  retryable : (∃ err, outcome = .clientError err ∧ err.retryable = true) ↔ reply.Transient
  noOther : ∀ e, outcome ≠ .raised e

/-- The counts, where a usage has them, are integers. -/
def CountsOk (usage : PyJson) : Prop :=
  usage.Field "prompt_tokens" PyJson.IsInt ∧ usage.Field "completion_tokens" PyJson.IsInt

/-- A body with the types that the lookups expect of whatever they find: its choices, if there are
any, begin with an object, whose message is an object, whose content is a string beside a usage as
it should be. -/
def BodyOk (body : PyJson) : Prop :=
  body.Field "choices" <| PyJson.First fun choice =>
    choice.Field "message" fun message =>
      message.Field "content" fun content => (∃ s, content = .str s) ∧ body.Field "usage" CountsOk

/-- A reply that `complete` deals with as it should: its status is below 600, and the body of
a successful one is within the recursion limit and, if it is JSON, has the types that the lookups
expect of whatever they find. -/
def Reply.Expected (py : Interpreter) : Reply → Prop
  | .timeout _ | .requestError _ => True
  | .response resp => resp.statusCode < 600 ∧ (isSuccess resp.statusCode = true →
      loads py resp.content ≠ .error .recursionError ∧
      ∀ body, loads py resp.content = .ok body → BodyOk body)

/-! ### The lookups -/

/-- A computation ends with a value that satisfies `P`, or with an exception that is caught. -/
def Ends {α : Type} (P : α → Prop) : Except PyException α → Prop
  | .ok a => P a
  | .error e => caught e = true

section Ends

variable {α β : Type} {P : β → Prop}

theorem ends_bind (res : Except PyException α) (f : α → Except PyException β) :
    Ends P (res >>= f) ↔ Ends (fun a => Ends P (f a)) res := by
  cases res <;> rfl

theorem ends_item {P : PyJson → Prop} (v : PyJson) (key : String) :
    Ends P (v.item key) ↔ v.Field key P := by
  unfold PyJson.item PyJson.Field
  split
  · next fields =>
    cases fields.lookup (PyStr.ofString key) with
    | none => simp [Ends, caught]
    | some w => simp [Ends]
  · simp [Ends, caught]

theorem ends_first {P : PyJson → Prop} (v : PyJson) : Ends P v.first ↔ v.First P := by
  unfold PyJson.first PyJson.First
  split <;> simp_all [Ends, caught]

/-- Where the default satisfies `P`, only a field that is there has to. -/
theorem getD_iff {P : PyJson → Prop} {default : PyJson} (hdefault : P default)
    (o : Option PyJson) : P (o.getD default) ↔ ∀ w, o = some w → P w := by
  cases o with
  | none => simpa using hdefault
  | some w => simp

end Ends

/-- The counts of a usage: what goes wrong there is not caught. -/
theorem ends_tokens (usage content : PyJson) :
    Ends LLMResponse.WellTyped (do
      let inputTokens ← usage.get "prompt_tokens" .zero
      let outputTokens ← usage.get "completion_tokens" .zero
      return ⟨content, inputTokens, outputTokens⟩) ↔
    (∃ s, content = .str s) ∧ CountsOk usage := by
  have hzero : PyJson.zero.IsInt := trivial
  cases usage with
  | dict fields =>
    have hinput := getD_iff hzero (fields.lookup (PyStr.ofString "prompt_tokens"))
    have houtput := getD_iff hzero (fields.lookup (PyStr.ofString "completion_tokens"))
    constructor
    · rintro ⟨hcontent, hi, ho⟩
      exact ⟨hcontent, hinput.mp hi, houtput.mp ho⟩
    · rintro ⟨hcontent, hi, ho⟩
      exact ⟨hcontent, hinput.mpr hi, houtput.mpr ho⟩
  | _ => simp [PyJson.get, Ends, caught, CountsOk, PyJson.Field, bind, Except.bind]

/-- The same for the usage of a body, which may be absent. -/
theorem ends_usage (body content : PyJson) :
    Ends LLMResponse.WellTyped (do
      let usage ← body.get "usage" (.dict [])
      let inputTokens ← usage.get "prompt_tokens" .zero
      let outputTokens ← usage.get "completion_tokens" .zero
      return ⟨content, inputTokens, outputTokens⟩) ↔
    (∃ s, content = .str s) ∧ body.Field "usage" CountsOk := by
  have hnil : CountsOk (.dict []) := ⟨nofun, nofun⟩
  cases body with
  | dict fields =>
    rw [ends_bind]
    show Ends _ _ ↔ (∃ s, content = .str s) ∧ ∀ w, _ → CountsOk w
    rw [← getD_iff hnil]
    exact ends_tokens _ content
  | _ => simp [PyJson.get, Ends, caught, PyJson.Field, bind, Except.bind]

/-- The lookups in a body end as they should just for the bodies that have the expected types. -/
theorem ends_readBody (body : PyJson) :
    Ends LLMResponse.WellTyped (readBody body) ↔ BodyOk body := by
  unfold readBody BodyOk
  rw [ends_bind, ends_item]
  refine PyJson.Field.congr fun choices => ?_
  rw [ends_bind, ends_first]
  refine PyJson.First.congr fun choice => ?_
  rw [ends_bind, ends_item]
  refine PyJson.Field.congr fun message => ?_
  rw [ends_bind, ends_item]
  exact PyJson.Field.congr fun content => ends_usage body content

/-- What `json.loads` raises is caught unless it is a `RecursionError`. -/
theorem ends_loads (py : Interpreter) (bs : Bytes) :
    Ends LLMResponse.WellTyped (loads py bs >>= readBody) ↔
      loads py bs ≠ .error .recursionError ∧ ∀ body, loads py bs = .ok body → BodyOk body := by
  rw [ends_bind]
  cases hloads : loads py bs with
  | error e => rcases ofLoads_loads py bs e hloads with rfl | rfl <;> simp [Ends, caught]
  | ok body =>
    show Ends _ (readBody body) ↔ _
    rw [ends_readBody]
    simp

/-! ### The replies -/

theorem oneFailureMode_clientError {reply : Reply} {text : String} {rest : PyStr}
    {retryable : Bool} : OneFailureMode reply (clientError text rest retryable) ↔
      (retryable = true ↔ reply.Transient) := by
  constructor
  · intro h
    simpa [clientError] using h.retryable
  · intro h
    exact ⟨nofun, by simpa [clientError] using h, nofun⟩

/-- A reply that nothing is said to be transient about asks for a well-typed response, or for an
error that is not retryable. -/
theorem oneFailureMode_ends {reply : Reply} (hreply : ¬reply.Transient) (text : String)
    (rest : PyException → PyStr) (res : Except PyException LLMResponse) :
    OneFailureMode reply (match res with
      | .ok res => .returned res
      | .error e => if caught e then clientError text (rest e) false else .raised e) ↔
    Ends LLMResponse.WellTyped res := by
  cases res with
  | ok res =>
    constructor
    · intro h
      exact h.wellTyped res rfl
    · intro h
      exact ⟨fun _ heq => Outcome.returned.inj heq ▸ h, by simpa using hreply, nofun⟩
  | error e =>
    show OneFailureMode reply (if caught e then _ else _) ↔ caught e = true
    by_cases he : caught e = true
    · rw [if_pos he, oneFailureMode_clientError]
      simpa [he] using hreply
    · rw [if_neg he]
      exact ⟨fun h => absurd rfl (h.noOther e), fun h => absurd h he⟩

/-- A reply has one of the two ends just when it is expected. -/
theorem oneFailureMode_iff (client : LLMClient) (py : Interpreter)
    (str : Bytes → PyException → PyStr) (post : Post → Reply) (req : LLMRequest) :
    OneFailureMode (post (client.post req)) (complete client py str post req) ↔
      (post (client.post req)).Expected py := by
  unfold complete
  generalize post (client.post req) = reply
  cases reply with
  | timeout exc =>
    rw [oneFailureMode_clientError]
    exact iff_of_true (iff_of_true rfl trivial) trivial
  | requestError exc =>
    rw [oneFailureMode_clientError]
    exact iff_of_true (iff_of_true rfl trivial) trivial
  | response resp =>
    show OneFailureMode _ (if resp.statusCode = 429 then _ else _) ↔
      resp.statusCode < 600 ∧ (isSuccess resp.statusCode = true → _)
    have htransient : (Reply.response resp).Transient ↔
        resp.statusCode = 429 ∨ 500 ≤ resp.statusCode ∧ resp.statusCode ≤ 599 := Iff.rfl
    have hsuccess : isSuccess resp.statusCode = true ↔
        200 ≤ resp.statusCode ∧ resp.statusCode ≤ 299 := by
      simp [isSuccess]
    by_cases hlimited : resp.statusCode = 429
    · rw [if_pos hlimited, oneFailureMode_clientError, htransient, hsuccess]
      exact iff_of_true (iff_of_true rfl (.inl hlimited)) ⟨by omega, fun h => by omega⟩
    · rw [if_neg hlimited]
      by_cases hserver : resp.statusCode ≥ 500
      · rw [if_pos hserver, oneFailureMode_clientError, htransient, hsuccess]
        constructor
        · intro h
          have := h.mp rfl
          exact ⟨by omega, fun h => by omega⟩
        · intro h
          exact iff_of_true rfl (.inr ⟨hserver, by omega⟩)
      · rw [if_neg hserver]
        have hstay : ¬(Reply.response resp).Transient := by
          rw [htransient]
          omega
        by_cases hok : isSuccess resp.statusCode = true
        · rw [if_neg (by simp [hok]), oneFailureMode_ends hstay, ends_loads]
          have hbelow : resp.statusCode < 600 := by omega
          exact ⟨fun h => ⟨hbelow, fun _ => h⟩, fun h => h.2 hok⟩
        · rw [if_pos (by simpa using hok), oneFailureMode_clientError]
          have hbelow : resp.statusCode < 600 := by omega
          exact iff_of_true (by simpa using hstay) ⟨hbelow, fun h => absurd h hok⟩

/-! ### Bodies that are not expected -/

/-- A successful response with a JSON body. -/
def success (body : PyJson) : Reply :=
  .response ⟨200, asciiBytes body.dumps, body.dumps.map codePoint⟩

/-- A client, and what it is asked for. -/
def summarizer : LLMClient := .init "key" "https://api.openai.com/v1/" "gpt-4o-mini"

def summaryRequest : LLMRequest := ⟨"You are a summarization function.", "INPUT:\ntext", 1024⟩

/-- `{"choices": [{"message": {"content": null}}]}`. -/
def nullContent : PyJson :=
  .dict [(PyStr.ofString "choices", .list [.dict [(PyStr.ofString "message",
    .dict [(PyStr.ofString "content", .none)])]])]

/-- What `complete` does with a successful response, by its body. -/
theorem complete_success {body : PyJson}
    (hloads : loads plainInterpreter (asciiBytes body.dumps) = .ok body) :
    complete summarizer plainInterpreter (fun _ _ => []) (fun _ => success body) summaryRequest =
      match readBody body with
      | .ok res => .returned res
      | .error e =>
        if caught e then clientError "Unexpected LLM response shape: " [] false else .raised e := by
  simp only [complete, success, hloads]
  rfl

/-- A body that is an empty list lets `TypeError` out, and a content that is `null` is returned. -/
theorem strangeBodies_not_oneFailureMode :
    complete summarizer plainInterpreter (fun _ _ => []) (fun _ => success (.list []))
        summaryRequest = .raised .typeError ∧
      ¬OneFailureMode (success (.list [])) (complete summarizer plainInterpreter (fun _ _ => [])
        (fun _ => success (.list [])) summaryRequest) ∧
      complete summarizer plainInterpreter (fun _ _ => []) (fun _ => success nullContent)
        summaryRequest = .returned ⟨.none, .zero, .zero⟩ ∧
      ¬OneFailureMode (success nullContent) (complete summarizer plainInterpreter (fun _ _ => [])
        (fun _ => success nullContent) summaryRequest) := by
  have hlist : loads plainInterpreter (asciiBytes (PyJson.list []).dumps) = .ok (.list []) := rfl
  have hnull : loads plainInterpreter (asciiBytes nullContent.dumps) = .ok nullContent :=
    loads_dumps plainInterpreter nullContent (by simp [nullContent, PyJson.FloatsRead, ItemsRead,
      FieldsRead]) (by decide)
  have hraised := complete_success hlist
  have hreturned := complete_success hnull
  refine ⟨hraised, fun h => h.noOther _ hraised, hreturned, fun h => ?_⟩
  obtain ⟨s, hs⟩ := (h.wellTyped _ hreturned).content
  cases hs

end TaskScheduler.Llm
