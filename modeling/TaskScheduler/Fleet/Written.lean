import TaskScheduler.Actions.Encoding
import TaskScheduler.Fleet.Recover

/-! The write after an action, with the values as the handler leaves them: any texts, and any
results that `json.dumps` accepts.  A value that a column rejects raises in the transaction, which
is rolled back, and ends `process_one`. -/

namespace TaskScheduler

/-- `ActionResult`, as a handler returns it. -/
structure HandlerResult where
  ok : Bool
  result : Option (List (PyStr × PyJson))
  error : Option PyStr
  errorCode : Option PyStr
  retryable : Bool

/-- How the work on a claimed run ends, as `_dispatch` tells the cases apart: a result, a timeout,
an exception with its `repr`, a job with an unknown action, and parameters that are rejected with
this text. -/
inductive Finished
  | returned (res : HandlerResult)
  | timedOut (seconds : Int)
  | raised (exc : PyStr)
  | unknownAction (action : PyStr)
  | invalidParams (exc : PyStr)

/-! ### What the columns store -/

/-- A nullable `text` column. -/
def bindText : Option PyStr → Option (Option String)
  | none => some none
  | some s => s.text.map some

/-- A value for the `jsonb` column: the text that is stored, unless it is rejected. -/
def bindJsonb (v : PyJson) : Option String :=
  if jsonb v.dumps then some (String.ofList v.dumps) else none

/-- `result` in both its encodings: the text of `json.dumps`, and the object for `event_data`. -/
def bindResult : Option (List (PyStr × PyJson)) → Option (Option String)
  | none => some none
  | some fields => do
    let result ← PyStr.text ((PyJson.dict fields).dumps.map codePoint)
    let _ ← bindJsonb (.dict fields)
    return some result

/-- The values that `_write_terminal` binds. -/
def HandlerResult.bindTerminal (res : HandlerResult) : Option ActionResult := do
  let result ← bindResult res.result
  let error ← bindText res.error
  let errorCode ← bindText res.errorCode
  return { ok := res.ok, retryable := res.retryable, result, error, errorCode }

/-- The values that `_write_retrying` binds: the message alone. -/
def HandlerResult.bindRetrying (res : HandlerResult) : Option ActionResult := do
  let error ← bindText res.error
  return { ok := false, retryable := true, result := none, error, errorCode := none }

/-- A message that starts with a fixed text. -/
def lead (text : String) (s : PyStr) : PyStr := PyStr.ofString text ++ s

/-- The write that follows, unless the database rejects one of its values. -/
def Finished.outcome (lib : Printable) : Finished → Option Outcome
  | .returned res =>
    if !res.ok && res.retryable then res.bindRetrying.map .returned
    else res.bindTerminal.map .returned
  | .timedOut seconds =>
    (lead "action timed out after " (PyStr.ofString (seconds.repr ++ "s"))).text.map .raised
  | .raised exc => (lead "action raised: " exc).text.map .raised
  | .unknownAction action =>
    (lead "unknown action: " (action.repr lib)).text.map fun message => .invalid message none
  | .invalidParams exc => do
    let message ← (lead "invalid params: " exc).text
    let _ ← bindJsonb (.dict [(PyStr.ofString "error", .str exc)])
    let text ← exc.text
    return .invalid message (some (.error text))

/-- What the action may leave behind: for a retry, a message that a `text` column accepts; at the
end, texts without U+0000 and surrogates, and a result whose strings and keys hold no U+0000 and no
surrogate alone, and whose floats are finite. -/
def Finished.Storable : Finished → Prop
  | .returned res =>
    if !res.ok && res.retryable then ∀ s ∈ res.error, s.Plain
    else (∀ fields ∈ res.result, (PyJson.dict fields).clean = true) ∧
      (∀ s ∈ res.error, s.Plain) ∧ ∀ s ∈ res.errorCode, s.Plain
  | .timedOut _ | .unknownAction _ => True
  | .raised exc | .invalidParams exc => exc.Plain

theorem bindText_isSome (s : Option PyStr) : (bindText s).isSome = true ↔ ∀ x ∈ s, x.Plain := by
  cases s with
  | none => simp [bindText]
  | some s => simp [bindText, text_isSome]

theorem bindJsonb_isSome (v : PyJson) : (bindJsonb v).isSome = true ↔ v.clean = true := by
  unfold bindJsonb
  rw [jsonb_dumps]
  cases v.clean <;> simp

theorem bindResult_isSome (result : Option (List (PyStr × PyJson))) :
    (bindResult result).isSome = true ↔ ∀ fields ∈ result, (PyJson.dict fields).clean = true := by
  cases result with
  | none => simp [bindResult]
  | some fields =>
    have h := bindJsonb_isSome (.dict fields)
    simp only [bindResult, text_dumps, Option.bind_eq_bind, Option.bind_some, Option.mem_some_iff,
      forall_eq', ← h]
    cases bindJsonb (.dict fields) <;> simp

theorem plain_ofString {text : String} (h : Printed text.toList) : (PyStr.ofString text).Plain :=
  plain_printed h

theorem plain_lead {text : String} (h : Printed text.toList) (s : PyStr) :
    (lead text s).text.isSome = true ↔ s.Plain := by
  rw [text_isSome]
  exact ⟨fun hplain c hc => hplain c (List.mem_append_right _ hc), plain_append (plain_ofString h)⟩

/-- The texts that the messages start with. -/
theorem printed_leads : ∀ text ∈ ["action timed out after ", "action raised: ", "unknown action: ",
    "invalid params: ", "s", "error"], Printed text.toList := by
  decide +kernel

/-- The database accepts the values exactly where they are storable. -/
theorem outcome_isSome (lib : Printable) (f : Finished) :
    (f.outcome lib).isSome = true ↔ f.Storable := by
  cases f with
  | returned res =>
    simp only [Finished.outcome, Finished.Storable]
    split
    · rw [Option.isSome_map, ← bindText_isSome, HandlerResult.bindRetrying]
      cases bindText res.error <;> simp
    · rw [Option.isSome_map, ← bindText_isSome, ← bindText_isSome, ← bindResult_isSome,
        HandlerResult.bindTerminal]
      cases bindResult res.result <;> cases bindText res.error <;> cases bindText res.errorCode <;>
        simp
  | timedOut seconds =>
    have hseconds : Printed (seconds.repr ++ "s").toList := by
      rw [String.toList_append]
      exact printed_append (fun c hc => numeric.printed (numeric_intRepr seconds c hc))
        (printed_leads "s" (by simp))
    simp only [Finished.outcome, Finished.Storable, Option.isSome_map]
    exact iff_of_true ((plain_lead (printed_leads _ (by simp)) _).mpr (plain_ofString hseconds))
      trivial
  | raised exc =>
    simp only [Finished.outcome, Finished.Storable, Option.isSome_map]
    exact plain_lead (printed_leads _ (by simp)) exc
  | unknownAction action =>
    simp only [Finished.outcome, Finished.Storable, Option.isSome_map]
    exact iff_of_true ((plain_lead (printed_leads _ (by simp)) _).mpr (plain_repr lib action))
      trivial
  | invalidParams exc =>
    have hmessage := plain_lead (printed_leads "invalid params: " (by simp)) exc
    simp only [Finished.outcome, Finished.Storable]
    refine ⟨fun h => hmessage.mp ?_, fun h => ?_⟩
    · cases htext : (lead "invalid params: " exc).text with
      | none => simp [htext] at h
      | some message => rfl
    · have hkey : (PyStr.ofString "error").clean = true :=
        clean_of_plain (plain_ofString (printed_leads _ (by simp)))
      have hclean : (PyJson.dict [(PyStr.ofString "error", .str exc)]).clean = true := by
        simp only [PyJson.clean, cleanFields, hkey, clean_of_plain h, Bool.and_self]
      obtain ⟨message, hmessage⟩ := Option.isSome_iff_exists.mp (hmessage.mpr h)
      obtain ⟨json, hjson⟩ := Option.isSome_iff_exists.mp ((bindJsonb_isSome _).mpr hclean)
      obtain ⟨text, htext⟩ := Option.isSome_iff_exists.mp ((text_isSome exc).mpr h)
      simp [hmessage, hjson, htext]

/-- An outcome is a success, a failure or a retry. -/
theorem Outcome.status_cases (outcome : Outcome) : outcome.status = .succeeded ∨
    outcome.status = .failed ∨ outcome.status = .retrying := by
  cases outcome with
  | returned res =>
    unfold Outcome.status
    cases hok : res.ok <;> cases hre : res.retryable <;> simp [hok, hre]
  | raised message => exact .inr (.inr rfl)
  | invalid message eventData => exact .inr (.inl rfl)

namespace Fleet

/-- `process_one` of worker `i` after the work on its run: the write, where a rejected value rolls
the transaction back and ends the call. -/
def finished (lib : Printable) (set : Settings) (φ : Fleet) (i : Nat) (f : Finished) :
    Option Fleet :=
  match f.outcome lib with
  | some outcome => φ.step set (.finish i outcome)
  | none =>
    match φ.proc i with
    | some (.working _) => some (φ.become i none)
    | _ => none

/-- The run has one of the statuses that a finished action leaves it in. -/
def Settled (φ : Fleet) (runId : Nat) : Prop :=
  ∃ r ∈ φ.db.tables.runs, r.runId = runId ∧
    (r.status = .succeeded ∨ r.status = .failed ∨ r.status = .retrying)

instance (φ : Fleet) (runId : Nat) : Decidable (φ.Settled runId) :=
  inferInstanceAs (Decidable (∃ r ∈ φ.db.tables.runs, _))

/-- Once the values are accepted, the write goes through and gives its status to the run. -/
theorem finish_settles {set : Settings} {φ : Fleet} {i : Nat} {m : Message} (h : φ.Sound)
    (hproc : φ.proc i = some (.working m)) {r : JobRun} (hr : r ∈ φ.db.tables.runs)
    (hid : r.runId = m.runId) (outcome : Outcome) :
    ∃ φ', φ.step set (.finish i outcome) = some φ' ∧ φ'.Settled m.runId := by
  have hwritten : ∃ u y, φ.alone (fun _ => true) (finishTxn φ.clock m.runId m.jobId outcome) =
      some (.ok u, y) ∧ y.tables.RunsAre [m.runId] outcome.status :=
    Db.alone_ok (Q := fun _ t => t.RunsAre [m.runId] outcome.status) settledTo_aging
      h.coherent.jobs (finishTxn_ends _ _ _)
  obtain ⟨u, y, hok, hset⟩ := hwritten
  have henters : φ.db.tables.Enters (fun _ _ => True) y.tables :=
    alone_enters (finishTxn_issues _ _ _ trivial) hok
  obtain ⟨r', hr', hsame⟩ := henters.forth r hr
  have hid' : r'.runId = m.runId := hsame.runId.trans hid
  have hs : r'.status = outcome.status := hset r' hr' (List.mem_singleton.mpr hid')
  refine ⟨{ φ.become i (if outcome.retries then none else some (.deleting m)) with db := y }, ?_,
    r', hr', hid', hs ▸ outcome.status_cases⟩
  simp only [Fleet.step, hproc]
  exact transact_ok hok

/-- A finished action leaves its RUNNING run SUCCEEDED, FAILED or RETRYING exactly if the database
accepts what it left; otherwise nothing is written. -/
theorem finished_settles {set : Settings} {ok : Fleet → FleetAct → Prop} {φ : Fleet}
    (lib : Printable) (hreach : Reach set ok φ) {i : Nat} {m : Message}
    (hproc : φ.proc i = some (.working m)) {r : JobRun} (hr : r ∈ φ.db.tables.runs)
    (hid : r.runId = m.runId) (hs : r.status = .running) (f : Finished) :
    ∃ φ', φ.finished lib set i f = some φ' ∧ (φ'.Settled m.runId ↔ f.Storable) ∧
      (¬f.Storable → φ'.db = φ.db) := by
  have hsound := hreach.sound
  rw [← outcome_isSome lib f]
  unfold finished
  cases f.outcome lib with
  | some outcome =>
    obtain ⟨φ', hstep, hsettled⟩ := finish_settles hsound hproc hr hid outcome
    exact ⟨φ', hstep, iff_of_true hsettled rfl, fun hrejected => absurd rfl hrejected⟩
  | none =>
    refine ⟨φ.become i none, by simp only [hproc], iff_of_false ?_ (by simp), fun _ => rfl⟩
    -- the row is the one that was RUNNING before
    rintro ⟨r', hr', hid', hend⟩
    have heq : r' = r :=
      List.inj_on_of_nodup_map hsound.coherent.runs hr' hr (hid'.trans hid.symm)
    rw [heq, hs] at hend
    simp at hend

/-- An `isprintable` that holds of ASCII only. -/
def asciiPrintable : Printable where
  holds c := decide (0x20 ≤ c.val ∧ c.val < 0x7f)
  surrogate_eq_false c h := by
    simp only [surrogate, Bool.and_eq_true, decide_eq_true_eq] at h
    simp only [decide_eq_false_iff_not]
    omega

/-- A worker has claimed the run of a new job. -/
def workingRun : List FleetAct :=
  [.other (.create 0 (.echo none none none)) fun _ => true, .begin_ .watcher,
    .publish 0 10 fun _ => true, .send 0 true, .receive 0, .claim 1]

theorem natAbs_short {n : Int} {k : Nat} (h : n.natAbs < 10 ^ k) (hk : k ≤ maxStrDigits) :
    n.natAbs < 10 ^ maxStrDigits :=
  Nat.lt_of_lt_of_le h (Nat.pow_le_pow_right (by decide) hk)

/-- What `http_call` returns for a response with this body. -/
def httpResult (body : PyStr) : Finished :=
  .returned ⟨true, some [(PyStr.ofString "status_code",
    .int ⟨200, @natAbs_short 200 3 (by decide) (by decide)⟩),
    (PyStr.ofString "body", .str body)], none, none, false⟩

/-- A response whose body is one NUL byte leaves the run RUNNING, though the action has
succeeded. -/
theorem nulBody_stays : ∃ φ, Reach .default (fun _ _ => True) φ ∧
    ∃ m ∈ φ.messages, φ.proc 1 = some (.working m) ∧
    ∃ φ', φ.finished asciiPrintable .default 1 (httpResult [0]) = some φ' ∧ φ'.proc 1 = none ∧
      ∃ r ∈ φ'.db.tables.runs, r.runId = m.runId ∧ r.status = .running := by
  have hrun : (runActs .default {} workingRun).any (fun φ =>
      (φ.finished asciiPrintable .default 1 (httpResult [0])).any fun φ' => decide
        (φ'.proc 1 = none ∧ ∃ m ∈ φ.messages, φ.proc 1 = some (.working m) ∧
          ∃ r ∈ φ'.db.tables.runs, r.runId = m.runId ∧ r.status = .running)) = true := by
    decide +kernel
  obtain ⟨φ, hφ, hafter⟩ := (Option.any_eq_true _ _).mp hrun
  obtain ⟨φ', hφ', hend⟩ := (Option.any_eq_true _ _).mp hafter
  obtain ⟨hproc', m, hm, hproc, hr⟩ := of_decide_eq_true hend
  exact ⟨φ, (Reach.init 0).runActs (fun _ _ _ => trivial) hφ, m, hm, hproc, φ', hφ', hproc', hr⟩

/-- The same response with a body of printed text ends the run. -/
theorem textBody_settles : ∃ (φ : Fleet) (m : Message) (φ' : Fleet), φ.proc 1 = some (.working m) ∧
    φ.finished asciiPrintable .default 1 (httpResult (PyStr.ofString "ok")) = some φ' ∧
    φ'.Settled m.runId := by
  have hrun : (runActs .default {} workingRun).any (fun φ => decide (∃ m ∈ φ.messages,
      φ.proc 1 = some (.working m) ∧ ∃ r ∈ φ.db.tables.runs, r.runId = m.runId ∧
        r.status = .running)) = true := by
    decide +kernel
  obtain ⟨φ, hφ, hend⟩ := (Option.any_eq_true _ _).mp hrun
  obtain ⟨m, hm, hproc, r, hr, hid, hs⟩ := of_decide_eq_true hend
  have hreach : Reach .default (fun _ _ => True) φ :=
    (Reach.init 0).runActs (fun _ _ _ => trivial) hφ
  obtain ⟨φ', hφ', hsettled, -⟩ := finished_settles asciiPrintable hreach hproc hr hid hs
    (httpResult (PyStr.ofString "ok"))
  have hclean : (PyJson.dict [(PyStr.ofString "status_code",
      .int ⟨200, @natAbs_short 200 3 (by decide) (by decide)⟩),
      (PyStr.ofString "body", .str (PyStr.ofString "ok"))]).clean = true := by
    decide +kernel
  refine ⟨φ, m, φ', hproc, hφ', hsettled.mpr ⟨fun fields hfields => ?_, by simp, by simp⟩⟩
  cases hfields
  exact hclean

end Fleet

end TaskScheduler
