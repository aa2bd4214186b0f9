import TaskScheduler.Actions.Params
import TaskScheduler.Workers.Executor

/-! The second phase of `_dispatch` in `app/workers/executor.py`: the handler of a claimed run is
resolved, its parameters are validated, and `from_run_id` is wired to the run that triggered it. -/

namespace TaskScheduler

/-- The injection of `from_run_id`: only into a model that has the field, and only where it is
unset. -/
def autoWire (waitForRunId : Option Nat) (params : Params) : Params :=
  match params.fromRunId, waitForRunId with
  | some none, some runId => params.withFromRunId runId
  | _, _ => params

/-- Phase 2 of `_dispatch`: the parameters that the handler is executed with, or the end of the
run.  `repr` is that of a string. -/
def prepareParams (repr : String → String) (lib : Pydantic) (action : String) (actionParams : JsonObject)
    (waitForRunId : Option Nat) : Except Outcome Params :=
  match paramsModel lib action with
  | none => .error (.invalid ("unknown action: " ++ repr action) none)
  | some model =>
    match model.validate actionParams with
    | none =>
      let exc := lib.errorText action actionParams
      .error (.invalid ("invalid params: " ++ exc) (some (.error exc)))
    | some params => .ok (autoWire waitForRunId params)

/-! ### Reading one field more -/

namespace JsonObject

variable {o : JsonObject} {key key' : String} {α : Type} {read : Json → Option α}

theorem optional_of_unset (h : o.Unset key) : o.optional key read = some none := by
  rcases h with h | h <;> simp [optional, h]

theorem optional_set_ne {v : Json} (h : key' ≠ key) :
    (o.set key v).optional key' read = o.optional key' read := by
  rw [optional, get_set_ne h, optional]

theorem required_set_ne {v : Json} (h : key' ≠ key) :
    (o.set key v).required key' read = o.required key' read := by
  rw [required, get_set_ne h, required]

theorem withDefault_set_ne {v : Json} {d : α} (h : key' ≠ key) :
    (o.set key v).withDefault key' d read = o.withDefault key' d read := by
  rw [withDefault, get_set_ne h, withDefault]

theorem noExtra_set {v : Json} {fields : List String} (h : key ∈ fields) :
    (o.set key v).noExtra fields = o.noExtra fields :=
  all_set (p := fun k => decide (k ∈ fields)) (by simpa using h)

theorem optional_int_set {lib : Pydantic} {n : Int} :
    (o.set key (.int n)).optional key lib.int = some (some n) := by
  rw [optional, get_set_self]
  rfl

/-- A field that is set is read, or the object is rejected. -/
theorem optional_of_set (h : ¬o.Unset key) {x : Option α} (hx : o.optional key read = some x) :
    ∃ v y, o.get key = some v ∧ read v = some y ∧ x = some y := by
  unfold optional at hx
  split at hx
  · next hget => exact absurd (.inl hget) h
  · next hget => exact absurd (.inr hget) h
  · next v _ hget =>
    obtain ⟨y, hy, rfl⟩ := Option.map_eq_some_iff.mp hx
    exact ⟨v, y, hget, hy, rfl⟩

end JsonObject

section Models

variable {repr : String → String} {lib : Pydantic} {o : JsonObject} {w : Nat}

theorem validateSlackPost_wired (h : o.Unset "from_run_id") :
    validateSlackPost lib (o.set "from_run_id" (.int w)) =
      (validateSlackPost lib o).map (autoWire (some w)) := by
  simp (disch := decide) only [validateSlackPost, JsonObject.required_set_ne,
    JsonObject.optional_set_ne, JsonObject.optional_int_set, JsonObject.optional_of_unset h]
  cases o.required "channel" Pydantic.str with
  | none => rfl
  | some channel =>
    cases o.optional "message" Pydantic.str with
    | none => rfl
    | some message =>
      cases o.optional "template" (Pydantic.oneOf SlackTemplate.values) <;> rfl

theorem validateEmailSend_wired (h : o.Unset "from_run_id") :
    validateEmailSend lib (o.set "from_run_id" (.int w)) =
      (validateEmailSend lib o).map (autoWire (some w)) := by
  simp (disch := decide) only [validateEmailSend, JsonObject.required_set_ne,
    JsonObject.optional_set_ne, JsonObject.optional_int_set, JsonObject.optional_of_unset h]
  cases o.required "to" (Pydantic.list lib.email) with
  | none => rfl
  | some recipients =>
    cases o.required "subject" Pydantic.str with
    | none => rfl
    | some subject =>
      cases o.optional "body" Pydantic.str with
      | none => rfl
      | some body =>
        cases o.optional "template" (Pydantic.oneOf EmailTemplate.values) <;> rfl

/-- The rule that one of the two inputs is given rejects the object before the field is wired in,
wherever it accepts the object with the field. -/
theorem validateLlmSummarize_unwired (h : o.Unset "from_run_id") {p : Params}
    (hp : validateLlmSummarize lib (o.set "from_run_id" (.int w)) = some p) :
    validateLlmSummarize lib o = none := by
  have hfield : "from_run_id" ∈ llmSummarizeFields := by decide
  simp (disch := decide) only [validateLlmSummarize, JsonObject.withDefault_set_ne,
    JsonObject.optional_set_ne, JsonObject.optional_int_set, JsonObject.noExtra_set hfield,
    Option.bind_eq_bind, Option.bind_eq_some_iff] at hp
  obtain ⟨_, -, _, hrun, text, htext, _, -, _, -, _, -, _, -, _, hone, -⟩ := hp
  cases hrun
  have hnone : text = none := by
    cases text with
    | none => rfl
    | some text => cases hone
  subst hnone
  rw [Option.eq_none_iff_forall_ne_some]
  intro q hq
  simp only [validateLlmSummarize, JsonObject.optional_of_unset h, htext, Option.bind_eq_bind,
    Option.bind_eq_some_iff] at hq
  obtain ⟨_, -, _, hrun, _, htext, _, -, _, -, _, -, _, -, _, hone, -⟩ := hq
  cases hrun
  cases htext
  cases hone

theorem validateLlmPolish_unwired (h : o.Unset "from_run_id") {p : Params}
    (hp : validateLlmPolish lib (o.set "from_run_id" (.int w)) = some p) :
    validateLlmPolish lib o = none := by
  have hfield : "from_run_id" ∈ llmPolishFields := by decide
  simp (disch := decide) only [validateLlmPolish, JsonObject.withDefault_set_ne,
    JsonObject.optional_set_ne, JsonObject.optional_int_set, JsonObject.noExtra_set hfield,
    Option.bind_eq_bind, Option.bind_eq_some_iff] at hp
  obtain ⟨_, -, _, hrun, text, htext, _, -, _, -, _, hone, -⟩ := hp
  cases hrun
  have hnone : text = none := by
    cases text with
    | none => rfl
    | some text => cases hone
  subst hnone
  rw [Option.eq_none_iff_forall_ne_some]
  intro q hq
  simp only [validateLlmPolish, JsonObject.optional_of_unset h, htext, Option.bind_eq_bind,
    Option.bind_eq_some_iff] at hq
  obtain ⟨_, -, _, hrun, _, htext, _, -, _, -, _, hone, -⟩ := hq
  cases hrun
  cases htext
  cases hone

/-- The models with the field are those of four actions. -/
theorem paramsModel_cases {action : String} {model : ParamsModel}
    (h : paramsModel lib action = some model) (hfield : "from_run_id" ∈ model.fields) :
    (action = "slack_post" ∧ model.validate = validateSlackPost lib) ∨
    (action = "email_send" ∧ model.validate = validateEmailSend lib) ∨
    (action = "llm_summarize" ∧ model.validate = validateLlmSummarize lib) ∨
    (action = "llm_polish" ∧ model.validate = validateLlmPolish lib) := by
  unfold paramsModel at h
  split at h
  · cases h
    simp at hfield
  · split at h
    · cases h
      simp at hfield
    · split at h
      · cases h
        simp at hfield
      · split at h
        · next hname =>
          cases h
          exact .inl ⟨hname, rfl⟩
        · split at h
          · cases h
            simp at hfield
          · split at h
            · next hname =>
              cases h
              exact .inr (.inl ⟨hname, rfl⟩)
            · split at h
              · next hname =>
                cases h
                exact .inr (.inr (.inl ⟨hname, rfl⟩))
              · split at h
                · next hname =>
                  cases h
                  exact .inr (.inr (.inr ⟨hname, rfl⟩))
                · cases h

/-- A field that is set reaches the parameters of every model that has it. -/
theorem validate_fromRunId {action : String} {model : ParamsModel}
    (h : paramsModel lib action = some model) (hfield : "from_run_id" ∈ model.fields)
    (hset : ¬o.Unset "from_run_id") {p : Params} (hp : model.validate o = some p) :
    ∃ v n, o.get "from_run_id" = some v ∧ lib.int v = some n ∧ p.fromRunId = some (some n) := by
  rcases paramsModel_cases h hfield with ⟨-, hv⟩ | ⟨-, hv⟩ | ⟨-, hv⟩ | ⟨-, hv⟩
  · simp only [hv, validateSlackPost, Option.bind_eq_bind, Option.bind_eq_some_iff] at hp
    obtain ⟨_, -, _, -, _, hrun, _, -, hp⟩ := hp
    obtain ⟨v, n, hget, hn, rfl⟩ := JsonObject.optional_of_set hset hrun
    cases hp
    exact ⟨v, n, hget, hn, rfl⟩
  · simp only [hv, validateEmailSend, Option.bind_eq_bind, Option.bind_eq_some_iff] at hp
    obtain ⟨_, -, _, -, _, -, _, hrun, _, -, hp⟩ := hp
    obtain ⟨v, n, hget, hn, rfl⟩ := JsonObject.optional_of_set hset hrun
    cases hp
    exact ⟨v, n, hget, hn, rfl⟩
  · simp only [hv, validateLlmSummarize, Option.bind_eq_bind, Option.bind_eq_some_iff] at hp
    obtain ⟨_, -, _, hrun, _, -, _, -, _, -, _, -, _, -, _, -, hp⟩ := hp
    obtain ⟨v, n, hget, hn, rfl⟩ := JsonObject.optional_of_set hset hrun
    cases hp
    exact ⟨v, n, hget, hn, rfl⟩
  · simp only [hv, validateLlmPolish, Option.bind_eq_bind, Option.bind_eq_some_iff] at hp
    obtain ⟨_, -, _, hrun, _, -, _, -, _, -, _, -, hp⟩ := hp
    obtain ⟨v, n, hget, hn, rfl⟩ := JsonObject.optional_of_set hset hrun
    cases hp
    exact ⟨v, n, hget, hn, rfl⟩

/-- A run that the validation rejects does not reach its handler. -/
theorem prepareParams_of_invalid {action : String} {model : ParamsModel} {wait : Option Nat}
    (h : paramsModel lib action = some model) (hv : model.validate o = none) (p : Params) :
    prepareParams repr lib action o wait ≠ .ok p := by
  simp [prepareParams, h, hv]

theorem prepareParams_of_valid {action : String} {model : ParamsModel} {wait : Option Nat}
    {p : Params} (h : paramsModel lib action = some model) (hv : model.validate o = some p) :
    prepareParams repr lib action o wait = .ok (autoWire wait p) := by
  simp [prepareParams, h, hv]

/-- The parameters with the triggering run wired in reach the handler exactly where the handler is
not one of the two LLM actions, or where its model rejects them; a run that is named explicitly
always does. -/
theorem dataPlane_iff (repr : String → String) (lib : Pydantic) {action : String} {model : ParamsModel}
    (h : paramsModel lib action = some model) (hfield : "from_run_id" ∈ model.fields)
    (o : JsonObject) (w : Nat) :
    (o.Unset "from_run_id" →
      ((∀ p, model.validate (o.set "from_run_id" (.int w)) = some p →
        prepareParams repr lib action o (some w) = .ok p) ↔
      (action ≠ "llm_summarize" ∧ action ≠ "llm_polish") ∨
        model.validate (o.set "from_run_id" (.int w)) = none)) ∧
    (¬o.Unset "from_run_id" → ∀ p, model.validate o = some p →
      prepareParams repr lib action o (some w) = .ok p ∧
      ∃ v n, o.get "from_run_id" = some v ∧ lib.int v = some n ∧ p.fromRunId = some (some n)) := by
  refine ⟨fun hunset => ?_, fun hset p hp => ?_⟩
  · -- a model that reads the field beside the others is wired to what it would have read
    have hwired : model.validate (o.set "from_run_id" (.int w)) =
        (model.validate o).map (autoWire (some w)) → ∀ p,
        model.validate (o.set "from_run_id" (.int w)) = some p →
        prepareParams repr lib action o (some w) = .ok p := by
      intro heq p hp
      obtain ⟨q, hq, rfl⟩ := Option.map_eq_some_iff.mp (heq ▸ hp)
      exact prepareParams_of_valid h hq
    have hunwired : (∀ p, model.validate (o.set "from_run_id" (.int w)) = some p →
        model.validate o = none) → (∀ p, model.validate (o.set "from_run_id" (.int w)) = some p →
        prepareParams repr lib action o (some w) = .ok p) →
        model.validate (o.set "from_run_id" (.int w)) = none := by
      intro hnone hall
      rw [Option.eq_none_iff_forall_ne_some]
      intro p hp
      exact prepareParams_of_invalid h (hnone p hp) p (hall p hp)
    have hvacuous : model.validate (o.set "from_run_id" (.int w)) = none →
        ∀ p, model.validate (o.set "from_run_id" (.int w)) = some p →
        prepareParams repr lib action o (some w) = .ok p := by
      intro hnone p hp
      rw [hnone] at hp
      cases hp
    rcases paramsModel_cases h hfield with ⟨rfl, hv⟩ | ⟨rfl, hv⟩ | ⟨rfl, hv⟩ | ⟨rfl, hv⟩
    · exact ⟨fun _ => .inl (by decide), fun _ => hwired (hv ▸ validateSlackPost_wired hunset)⟩
    · exact ⟨fun _ => .inl (by decide), fun _ => hwired (hv ▸ validateEmailSend_wired hunset)⟩
    · refine ⟨fun hall => .inr (hunwired (fun p hp => ?_) hall), fun hor => ?_⟩
      · exact hv ▸ validateLlmSummarize_unwired hunset (hv ▸ hp)
      · exact hvacuous (hor.resolve_left (by decide))
    · refine ⟨fun hall => .inr (hunwired (fun p hp => ?_) hall), fun hor => ?_⟩
      · exact hv ▸ validateLlmPolish_unwired hunset (hv ▸ hp)
      · exact hvacuous (hor.resolve_left (by decide))
  · obtain ⟨v, n, hget, hn, hrun⟩ := validate_fromRunId h hfield hset hp
    refine ⟨?_, v, n, hget, hn, hrun⟩
    rw [prepareParams_of_valid h hp]
    simp only [autoWire, hrun]

/-- The text of the rule across fields. -/
def oneSourceText : String := "Exactly one of 'from_run_id' or 'text' must be provided"

/-- A pydantic that reads no numbers from texts, and every text with an at sign as an address. -/
def Pydantic.plain : Pydantic where
  intOfStr _ := none
  intOfFloat _ := none
  emailStr s := if s.toList.contains '@' then some s else none
  errorText _ _ := oneSourceText

/-- `repr` of a text without quotes or characters to escape. -/
def plainRepr (s : String) : String := "'" ++ s ++ "'"

/-- The summarizing step of a chain: with the run that triggered it the parameters are accepted, and
the run fails for invalid parameters. -/
theorem summarize_fails : ∃ p,
    (paramsModel .plain "llm_summarize").map (fun m =>
      m.validate (JsonObject.set [("style", .str "bullet")] "from_run_id" (.int 7))) = some (some p) ∧
    p.fromRunId = some (some 7) ∧
    prepareParams plainRepr .plain "llm_summarize" [("style", .str "bullet")] (some 7) =
      .error (.invalid ("invalid params: " ++ oneSourceText) (some (.error oneSourceText))) :=
  ⟨.llmSummarize ⟨some 7, none, .bullet, .short, "en", []⟩, by rfl, rfl, by rfl⟩

/-- The posting step of a chain gets the run that triggered it. -/
theorem slack_wired :
    prepareParams plainRepr .plain "slack_post" [("channel", .str "#digest")] (some 7) =
      .ok (.slackPost ⟨"#digest", none, some 7, none⟩) :=
  ((@dataPlane_iff plainRepr .plain "slack_post" _ rfl (by decide) [("channel", .str "#digest")]
    7).1 (.inl rfl)).mpr (.inl (by decide)) _ rfl

end Models

end TaskScheduler
