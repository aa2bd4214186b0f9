import TaskScheduler.Actions.Replay
import TaskScheduler.Fleet.Written
import TaskScheduler.Interleave.Lineage
import TaskScheduler.Python.RoundTrip

/-! The data plane of a chain, whatever interleaves: the result that an action returns is stored by
the write that ends its run, no later step changes it, and every reader of the same tenant gets from
`read_upstream` the value that was returned. -/

namespace TaskScheduler

open Lib

/-! ### What the transactions store -/

/-- The result that the write after an action gives to its run, if it gives one. -/
def Outcome.stored : Outcome → Option (Option String)
  | .returned res => if res.ok || !res.retryable then some res.result else none
  | _ => none

theorem Outcome.write_result (now : Int) (outcome : Outcome) (r : JobRun) :
    (outcome.write now r).result = outcome.stored.getD r.result := by
  cases outcome with
  | returned res =>
    simp only [Outcome.write, Outcome.stored]
    cases res.ok <;> cases res.retryable <;> rfl
  | raised message | invalid message eventData => rfl

/-- The transaction may give run `id` the result `x`. -/
def Kind.Stores (k : Kind) (id : Nat) (x : Option String) : Prop :=
  ∃ now jobId outcome, k = .finish now id jobId outcome ∧ outcome.stored = some x

/-- The write gives results only as `P` allows; a new run has none. -/
def Write.Stores (P : Nat → Option String → Prop) : Write → Prop
  | .insertRun row => row.result = none
  | .updateRuns ids set => (∀ r : JobRun, r.SameRun (set r)) ∧
    ((∀ r, (set r).result = r.result) ∨ ∀ id ∈ ids, ∀ r, P id (set r).result)
  | _ => True

theorem Kind.Updates.stores {k : Kind} {p : JobRun → Bool} {set : JobRun → JobRun}
    (h : k.Updates p set) {ids : List Nat} (hids : ∀ id ∈ ids, ∃ r, p r = true ∧ r.runId = id) :
    (Write.updateRuns ids set).Stores k.Stores := by
  refine ⟨h.sameRun, ?_⟩
  cases h with
  | @finish now runId jobId outcome =>
    cases hstored : outcome.stored with
    | none => exact .inl fun r => by rw [Outcome.write_result, hstored, Option.getD_none]
    | some x =>
      refine .inr fun id hid r => ?_
      obtain ⟨r₀, hr₀, rfl⟩ := hids id hid
      rw [Outcome.write_result, hstored, beq_iff_eq.mp hr₀]
      exact ⟨now, jobId, outcome, rfl, hstored⟩
  | _ => exact .inl fun _ => rfl

theorem Kind.stores (cfg : Config) (k : Kind) :
    (k.prog cfg).Issues (Stmt.Makes (Write.Stores k.Stores)) := by
  refine (k.runs cfg).mono fun s hs => ?_
  cases s with
  | updateRuns p set => exact fun ids hids => hs.stores hids
  | insertRun row =>
    obtain ⟨-, job, runAt, wait, rfl⟩ := hs
    exact fun _ _ => rfl
  | insertJob row | insertEvent row => exact fun _ _ => trivial
  | updateJobs p set | updateEvents p set => exact fun _ => trivial
  | _ => trivial

/-- The runs of `t` are there in `t'`, and what is new about a result is of `P`. -/
structure Tables.Stores (P : Nat → Option String → Prop) (t t' : Tables) : Prop where
  forth : ∀ r ∈ t.runs, ∃ r' ∈ t'.runs, r.SameRun r' ∧
    (r'.result = r.result ∨ P r.runId r'.result)
  back : ∀ r' ∈ t'.runs, r'.result = none ∨ P r'.runId r'.result ∨
    ∃ r ∈ t.runs, r.SameRun r' ∧ r'.result = r.result

namespace Tables.Stores

variable {P : Nat → Option String → Prop} {t t' : Tables}

theorem refl (P : Nat → Option String → Prop) (t : Tables) : t.Stores P t :=
  ⟨fun r hr => ⟨r, hr, .refl r, .inl rfl⟩, fun r hr => .inr (.inr ⟨r, hr, .refl r, rfl⟩)⟩

theorem apply (h : t.Stores P t') {w : Write} (hw : w.Stores P) : t.Stores P (w.apply t') := by
  cases w with
  | insertRun row =>
    refine ⟨fun r hr => ?_, fun r' hr' => ?_⟩
    · obtain ⟨r', hr', hrest⟩ := h.forth r hr
      exact ⟨r', List.mem_append_left _ hr', hrest⟩
    · rcases List.mem_append.mp hr' with hr' | hr'
      · exact h.back r' hr'
      · rw [List.mem_singleton.mp hr']
        exact .inl hw
  | updateRuns ids set =>
    obtain ⟨hsame, hset⟩ := hw
    -- the row after the update of a row that satisfies what the results satisfy so far
    have hrow : ∀ x : JobRun, x.runId ∈ ids →
        (set x).result = x.result ∨ P x.runId (set x).result := fun x hin =>
      hset.imp (fun hkeep => hkeep x) fun hP => hP x.runId hin x
    refine ⟨fun r hr => ?_, fun r' hr' => ?_⟩
    · obtain ⟨x, hx, hrx, hres⟩ := h.forth r hr
      refine ⟨_, List.mem_map.mpr ⟨x, hx, rfl⟩, ?_⟩
      split
      · next hin =>
        refine ⟨hrx.trans (hsame x), ?_⟩
        rcases hrow x hin with hkeep | hP
        · rwa [hkeep]
        · exact .inr (hrx.runId ▸ hP)
      · exact ⟨hrx, hres⟩
    · obtain ⟨x, hx, rfl⟩ := List.mem_map.mp hr'
      split
      · next hin =>
        rcases hrow x hin with hkeep | hP
        · rw [hkeep, (hsame x).runId]
          rcases h.back x hx with hnone | hP | ⟨r, hr, hrx, hres⟩
          · exact .inl hnone
          · exact .inr (.inl hP)
          · exact .inr (.inr ⟨r, hr, hrx.trans (hsame x), hres⟩)
        · rw [(hsame x).runId]
          exact .inr (.inl hP)
      · exact h.back x hx
  | _ => exact ⟨h.forth, h.back⟩

theorem mono {Q : Nat → Option String → Prop} (h : t.Stores P t') (hPQ : ∀ id x, P id x → Q id x) :
    t.Stores Q t' := by
  refine ⟨fun r hr => ?_, fun r' hr' => ?_⟩
  · obtain ⟨r', hr', hrr', hres⟩ := h.forth r hr
    exact ⟨r', hr', hrr', hres.imp id (hPQ _ _)⟩
  · exact (h.back r' hr').imp id (Or.imp (hPQ _ _) id)

theorem view {ses : Session} (hmade : ses.Made (Write.Stores P)) (t : Tables) :
    t.Stores P (ses.view t) := by
  have hall : ∀ (ws : List Write) (t' : Tables), (∀ w ∈ ws, w.Stores P) → t.Stores P t' →
      t.Stores P (Write.applyAll ws t') := by
    intro ws
    induction ws with
    | nil => exact fun _ _ h => h
    | cons w ws ih =>
      exact fun t' hws h => ih (w.apply t') (fun v hv => hws v (List.mem_cons_of_mem _ hv))
        (h.apply (hws w List.mem_cons_self))
  exact hall ses.writes t hmade.now (.refl P t)

end Tables.Stores

/-! ### What the actions leave -/

/-- The result as the write stores it: what `json.dumps` writes of it, for a run that ends. -/
def Finished.stored : Finished → Option (Option String)
  | .returned res =>
    if !res.ok && res.retryable then none
    else some (res.result.map fun fields => String.ofList (PyJson.dict fields).dumps)
  | _ => none

theorem bindResult_some {result : Option (List (PyStr × PyJson))} {x : Option String}
    (h : bindResult result = some x) :
    x = result.map fun fields => String.ofList (PyJson.dict fields).dumps := by
  cases result with
  | none =>
    cases h
    rfl
  | some fields =>
    simp only [bindResult, text_dumps, Option.bind_eq_bind, Option.bind_some,
      Option.bind_eq_some_iff] at h
    obtain ⟨_, -, h⟩ := h
    cases h
    rfl

theorem Finished.outcome_stored {lib : Printable} {f : Finished} {outcome : Outcome}
    (h : f.outcome lib = some outcome) : outcome.stored = f.stored := by
  cases f with
  | returned res =>
    simp only [Finished.outcome] at h
    simp only [Finished.stored]
    split at h
    · next hretry =>
      obtain ⟨bound, hbound, rfl⟩ := Option.map_eq_some_iff.mp h
      simp only [HandlerResult.bindRetrying, Option.bind_eq_bind, Option.bind_eq_some_iff] at hbound
      obtain ⟨error, -, hbound⟩ := hbound
      cases hbound
      rw [if_pos hretry]
      rfl
    · next hend =>
      obtain ⟨bound, hbound, rfl⟩ := Option.map_eq_some_iff.mp h
      simp only [HandlerResult.bindTerminal, Option.bind_eq_bind, Option.bind_eq_some_iff] at hbound
      obtain ⟨result, hresult, error, -, errorCode, -, hbound⟩ := hbound
      cases hbound
      have hterminal : (res.ok || !res.retryable) = true := by
        cases hok : res.ok <;> cases hre : res.retryable <;> simp_all
      rw [if_neg hend, ← bindResult_some hresult]
      exact if_pos hterminal
  | timedOut seconds | raised exc | unknownAction action =>
    obtain ⟨message, -, rfl⟩ := Option.map_eq_some_iff.mp h
    rfl
  | invalidParams exc =>
    simp only [Finished.outcome, Option.bind_eq_bind, Option.bind_eq_some_iff] at h
    obtain ⟨message, -, _, -, text, -, h⟩ := h
    cases h
    rfl

/-- The result can be read back: every finite float in it has a text that `float` reads, and it is
nested no deeper than the scanner goes. -/
def Finished.Readable (py : Interpreter) : Finished → Prop
  | .returned res => ∀ fields ∈ res.result, (PyJson.dict fields).FloatsRead py ∧
    (PyJson.dict fields).depth ≤ py.decodeDepth
  | _ => True

/-- The text is one that `json.dumps` has written of an object that can be read back. -/
def Interpreter.Wrote (py : Interpreter) (text : String) : Prop :=
  ∃ fields, text = String.ofList (PyJson.dict fields).dumps ∧ (PyJson.dict fields).FloatsRead py ∧
    (PyJson.dict fields).depth ≤ py.decodeDepth

/-- `json.loads` of a string; what it raises otherwise is a `ValueError`. -/
def Interpreter.loadsText (py : Interpreter) (text : String) : Option PyJson :=
  if text.toList.head? = some '\uFEFF' then none
  else (decodeJson py (.ofString text)).toOption

theorem loadsText_dumps {py : Interpreter} {v : PyJson} (hread : v.FloatsRead py)
    (hdepth : v.depth ≤ py.decodeDepth) :
    py.loadsText (String.ofList v.dumps) = some v.reload := by
  have hprinted := printed_dumps v
  have hmark : (String.ofList v.dumps).toList.head? ≠ some '\uFEFF' := by
    rw [String.toList_ofList]
    intro hhead
    have := (hprinted _ (List.mem_of_mem_head? hhead)).2
    simp at this
  have hloads := loads_dumps py v hread hdepth
  rw [loads, decodeText_ascii hprinted] at hloads
  rw [Interpreter.loadsText, if_neg hmark, PyStr.ofString, String.toList_ofList]
  exact congrArg Except.toOption hloads

/-- The write after an action is of what a handler has left, and can be read back. -/
def Act.Handled (lib : Printable) (py : Interpreter) : Act → Prop
  | .atomic (.finish _ _ _ outcome) _ _ =>
    ∃ f : Finished, f.outcome lib = some outcome ∧ f.Readable py
  | _ => True

/-- Every result in the tables has been written by `json.dumps`. -/
def Tables.Written (py : Interpreter) (t : Tables) : Prop :=
  ∀ r ∈ t.runs, ∀ text, r.result = some text → py.Wrote text

/-- The write of an action that has ended gives its run the result and an ending status. -/
theorem finishTxn_stored {pick : Nat → Bool} {start now : Int} {E : Err → View → Prop} {v : View}
    {runId jobId : Nat} {res : ActionResult} (h : (res.ok || !res.retryable) = true) :
    (finishTxn now runId jobId (.returned res)).wp (rowAccount Job.SettledTo pick start) E
      (fun _ v' => ∀ r ∈ v'.tables.runs, r.runId = runId →
        r.result = res.result ∧ r.status.executing = false) v := by
  have hterminal : ∀ status : RunStatus, status.executing = false →
      (writeTerminal now runId jobId status res).wp (rowAccount Job.SettledTo pick start) E
        (fun _ v' => ∀ r ∈ v'.tables.runs, r.runId = runId →
          r.result = res.result ∧ r.status.executing = false) v := by
    intro status hstatus
    unfold writeTerminal
    simp only [Program.wp_bind]
    refine wp_updateRun fun _ => ?_
    simp only [Program.wp_bind, wp_insertEvent, Program.pure_eq]
    refine wp_settleJob_runs (P := fun runs => ∀ r ∈ runs, r.runId = runId →
      r.result = res.result ∧ r.status.executing = false) fun r' hr' hid => ?_
    obtain ⟨r, hr, rfl⟩ := Tables.mem_setRun.mp hr'
    split at hid
    · next hin =>
      rw [if_pos hin]
      exact ⟨rfl, hstatus⟩
    · next hne => exact absurd hid hne
  simp only [finishTxn]
  split
  · exact hterminal .succeeded rfl
  · next hok =>
    have hre : (!res.retryable) = true := by simpa [hok] using h
    rw [if_pos hre]
    exact hterminal .failed rfl

/-! ### The system -/

namespace Sys

variable {cfg : Config} {lib : Printable} {py : Interpreter} {σ σ' : Sys}

/-- The steps of a system whose consumers interleave, and whose handlers leave readable results. -/
def DataOk (lib : Printable) (py : Interpreter) (σ : Sys) (a : Act) : Prop :=
  σ.ConsumersOk a ∧ a.Handled lib py

/-- The step may give run `id`, which a live worker holds, the result `x`. -/
def Gives (σ : Sys) (a : Act) (id : Nat) (x : Option String) : Prop :=
  ∃ now jobId outcome start pick, a = .atomic (.finish now id jobId outcome) start pick ∧
    outcome.stored = some x ∧ (id, jobId) ∈ σ.workers

/-- Results change only by the write of a worker that holds the run. -/
theorem Reach.step_stores (h : Reach cfg ConsumersOk σ) {a : Act} (hstep : σ.step cfg a = some σ') :
    σ.tables.Stores (σ.Gives a) σ'.tables := by
  rcases h.step_made (Kind.stores cfg) hstep with heq | ⟨k, seq, ses, won, -, -, hmade, heq, hends⟩
  · rw [heq]
    exact .refl _ _
  rw [heq]
  refine (Tables.Stores.view hmade σ.tables).mono ?_
  rintro id x ⟨now, jobId, outcome, rfl, hstored⟩
  cases a with
  | atomic k start pick =>
    obtain ⟨rfl, henabled⟩ := hends
    exact ⟨now, jobId, outcome, start, pick, rfl, hstored, of_decide_eq_true henabled⟩
  | commit i =>
    obtain ⟨o, ho, hkind⟩ := hends
    have hconsumes := (h.consumer ho).1
    rw [hkind] at hconsumes
    cases hconsumes
  | _ => exact hends.elim

/-- The result of a run that has ended stays, in a step. -/
theorem Reach.keeps_result (h : Reach cfg ConsumersOk σ) {a : Act} (ha : σ.ConsumersOk a)
    (hstep : σ.step cfg a = some σ') {r : JobRun} (hr : r ∈ σ.tables.runs)
    (hend : r.status.executing = false) : ∃ r' ∈ σ'.tables.runs, r.SameRun r' ∧
      r'.status.executing = false ∧ r'.result = r.result := by
  have hspawned := h.spawned
  obtain ⟨hrevive, -⟩ := hspawned.step h ha hstep
  obtain ⟨r', hr', hsame, hres⟩ := (h.step_stores hstep).forth r hr
  refine ⟨r', hr', hsame, ?_, ?_⟩
  · by_contra hex
    have := hrevive r hr r' hr' hsame.runId (by simpa using hex)
    rw [hend] at this
    cases this
  · rcases hres with hres | ⟨now, jobId, outcome, start, pick, -, -, hworker⟩
    · exact hres
    · -- a live worker holds a run that is RUNNING
      obtain ⟨x, hx, hid, -, hs⟩ := hspawned.live.running _ hworker
      rw [← hspawned.interleaved.coherent.run_eq hx hr hid, hs] at hend
      cases hend

/-- The same for a run of the system. -/
theorem Reach.final_result (h : Reach cfg (DataOk lib py) σ)
    (hsteps : Steps cfg (DataOk lib py) σ σ') {r : JobRun} (hr : r ∈ σ.tables.runs)
    (hend : r.status.executing = false) : Reach cfg (DataOk lib py) σ' ∧
      ∃ r' ∈ σ'.tables.runs, r.SameRun r' ∧ r'.status.executing = false ∧ r'.result = r.result := by
  induction hsteps with
  | refl => exact ⟨h, r, hr, .refl r, hend, rfl⟩
  | step _ hok hstep ih =>
    obtain ⟨hreach, x, hx, hrx, hxend, hxres⟩ := ih
    obtain ⟨r', hr', hsame, hend', hres⟩ := (hreach.mono fun _ _ h => h.1).keeps_result hok.1 hstep
      hx hxend
    exact ⟨hreach.step hok hstep, r', hr', hrx.trans hsame, hend', hres.trans hxres⟩

/-- Every stored result has been written by `json.dumps` and can be read back. -/
theorem Reach.written (h : Reach cfg (DataOk lib py) σ) : σ.tables.Written py := by
  induction h with
  | init => exact fun r hr => by cases hr
  | step hreach hok hstep ih =>
    intro r' hr' text htext
    have hstores := (hreach.mono fun _ _ h => h.1).step_stores hstep
    rcases hstores.back r' hr' with hnone | ⟨now, jobId, outcome, start, pick, rfl, hstored, -⟩ |
        ⟨r, hr, -, hres⟩
    · rw [hnone] at htext
      cases htext
    · obtain ⟨f, hf, hread⟩ := hok.2
      rw [Finished.outcome_stored hf, htext] at hstored
      cases f with
      | returned res =>
        simp only [Finished.stored] at hstored
        split at hstored
        · cases hstored
        · obtain ⟨fields, hfields, rfl⟩ := Option.map_eq_some_iff.mp (Option.some.inj hstored)
          exact ⟨fields, rfl, hread fields hfields⟩
      | _ => cases hstored
    · exact ih r hr text (hres ▸ htext)

/-- The write of an action that has ended, in a step. -/
theorem Reach.finish_stores (h : Reach cfg ConsumersOk σ) {now start : Int} {pick : Nat → Bool}
    {runId jobId : Nat} {res : ActionResult} (hend : (res.ok || !res.retryable) = true)
    (hstep : σ.step cfg (.atomic (.finish now runId jobId (.returned res)) start pick) = some σ') :
    ∃ r ∈ σ.tables.runs, r.runId = runId ∧ ∃ r' ∈ σ'.tables.runs, r.SameRun r' ∧
      r'.result = res.result ∧ r'.status.executing = false := by
  have hcoh := h.spawned.interleaved.coherent
  have hforth := (h.step_stores hstep).forth
  simp only [Sys.step] at hstep
  split at hstep
  · next henabled =>
    obtain ⟨r, hr, hid, -, -⟩ := h.spawned.live.running _ (of_decide_eq_true henabled)
    refine ⟨r, hr, hid, ?_⟩
    obtain ⟨r', hr', hsame, -⟩ := hforth r hr
    refine ⟨r', hr', hsame, ?_⟩
    have hwp : (Kind.prog cfg (.finish now runId jobId (.returned res))).wp
        (rowAccount Job.SettledTo pick start) (fun _ _ => False)
        (fun _ v' => ∀ r ∈ v'.tables.runs, r.runId = runId →
          r.result = res.result ∧ r.status.executing = false) ⟨σ.tables, σ.seq, none⟩ :=
      wp_quiet (finishTxn_stored hend)
    split at hstep
    · cases hstep
    · next won seq ses hrun =>
      cases hstep
      obtain ⟨v, hv, -, hpost⟩ := run_atomic settledTo_aging hcoh.jobs hwp hrun
      exact hpost r' (hv ▸ hr') (hsame.runId.trans hid)
    · next seq ses hrun =>
      obtain ⟨v, -, -, hpost⟩ := run_atomic settledTo_aging hcoh.jobs hwp hrun
      exact hpost.elim
  · cases hstep

/-! ### The readers -/

/-- `read_upstream` on the committed tables. -/
def upstream (σ : Sys) (py : Interpreter) (runId : Nat) (userId : String) :
    Option (Except Err (UpstreamPayload PyJson)) :=
  ((⟨σ.tables, σ.seq⟩ : Db).alone 0 (fun _ => true) (readUpstream py.loadsText runId userId)).map
    (·.1)

theorem upstream_eq (σ : Sys) (py : Interpreter) (runId : Nat) (userId : String) :
    σ.upstream py runId userId =
      some (.ok (Email.upstreamPayload py.loadsText σ.tables runId userId)) := by
  obtain ⟨db', hread⟩ := Email.readUpstream_alone py.loadsText 0 (fun _ => true)
    ⟨σ.tables, σ.seq⟩ runId userId
  rw [upstream, hread]
  rfl

/-- A result that is there is read by its tenant, and by no other. -/
theorem upstream_result (hcoh : Coherent σ.tables σ.seq) {r : JobRun} (hr : r ∈ σ.tables.runs)
    {text : String} (htext : r.result = some text) {v : PyJson} (hv : py.loadsText text = some v)
    (userId : String) : σ.upstream py r.runId userId =
      some (.ok (if userId = r.userId then .ok v else .noResult)) := by
  rw [upstream_eq, Email.upstreamPayload]
  cases hhead : (σ.tables.runs.filter fun x =>
      (x.runId : Int) == (r.runId : Int) && x.userId == userId).head? with
  | none =>
    have hne : userId ≠ r.userId := by
      rintro rfl
      have hmem : r ∈ σ.tables.runs.filter fun x =>
          (x.runId : Int) == (r.runId : Int) && x.userId == r.userId :=
        List.mem_filter.mpr ⟨hr, by simp⟩
      rw [List.head?_eq_none_iff.mp hhead] at hmem
      cases hmem
    rw [if_neg hne]
  | some x =>
    obtain ⟨hx, hp⟩ := List.mem_filter.mp (List.mem_of_mem_head? hhead)
    simp only [Bool.and_eq_true, beq_iff_eq, Int.ofNat_inj] at hp
    obtain ⟨hid, rfl⟩ := hp
    rw [hcoh.run_eq hx hr hid, if_pos rfl]
    simp only [htext, hv, Option.elim_some]

/-- Whatever interleaves: no reader ever meets a result that is not JSON; and what an action has
returned when its run ended is what every later reader of its tenant gets, with surrogates joined,
while the readers of other tenants get nothing. -/
theorem upstream_data (h : Reach cfg (DataOk lib py) σ) :
    (∀ runId userId raw, σ.upstream py runId userId ≠ some (.ok (.invalidJson raw))) ∧
    ∀ now runId jobId outcome start pick σ₁ res fields,
      (Finished.returned res).outcome lib = some outcome → (Finished.returned res).Readable py →
      (res.ok = true ∨ res.retryable = false) → res.result = some fields →
      σ.step cfg (.atomic (.finish now runId jobId outcome) start pick) = some σ₁ →
      ∃ r ∈ σ.tables.runs, r.runId = runId ∧ ∀ σ', Steps cfg (DataOk lib py) σ₁ σ' → ∀ userId,
        σ'.upstream py runId userId =
          some (.ok (if userId = r.userId then .ok (PyJson.dict fields).reload else .noResult)) := by
  have hconsumers : ∀ {σ : Sys}, Reach cfg (DataOk lib py) σ → Reach cfg ConsumersOk σ :=
    fun h => h.mono fun _ _ h => h.1
  refine ⟨fun runId userId raw hinvalid => ?_, fun now runId jobId outcome start pick σ₁ res fields
    houtcome hread hend hfields hstep => ?_⟩
  · rw [upstream_eq, Option.some.injEq, Except.ok.injEq, Email.upstreamPayload] at hinvalid
    split at hinvalid
    · cases hinvalid
    · next x hx =>
      have hmem := (List.mem_filter.mp (List.mem_of_mem_head? hx)).1
      split at hinvalid
      · next text htext =>
        obtain ⟨fields, rfl, hfloats, hdepth⟩ := h.written x hmem text htext
        rw [loadsText_dumps hfloats hdepth] at hinvalid
        cases hinvalid
      · split at hinvalid <;> cases hinvalid
  · have hstored := Finished.outcome_stored houtcome
    have hterminal : (!res.ok && res.retryable) = false := by
      rcases hend with hok | hre <;> simp [*]
    simp only [Finished.stored, hterminal, Bool.false_eq_true, if_false, hfields,
      Option.map_some] at hstored
    cases outcome with
    | raised message | invalid message eventData => cases hstored
    | returned bound =>
      simp only [Outcome.stored] at hstored
      split at hstored
      · next hbound =>
        obtain ⟨r, hr, hid, r₁, hr₁, hsame, hres, hended⟩ := (hconsumers h).finish_stores hbound hstep
        refine ⟨r, hr, hid, fun σ' hsteps userId => ?_⟩
        have hok : DataOk lib py σ
            (.atomic (.finish now runId jobId (.returned bound)) start pick) :=
          ⟨trivial, _, houtcome, hread⟩
        have h₁ : Reach cfg (DataOk lib py) σ₁ := h.step hok hstep
        obtain ⟨h', r', hr', hsame', -, hres'⟩ := h₁.final_result hsteps hr₁ hended
        have htext : r'.result = some (String.ofList (PyJson.dict fields).dumps) := by
          rw [hres', hres]
          exact Option.some.inj hstored
        obtain ⟨hfloats, hdepth⟩ := hread fields hfields
        have hread' := upstream_result (hconsumers h').spawned.interleaved.coherent hr' htext
          (loadsText_dumps hfloats hdepth) userId
        rwa [hsame'.runId, hsame.runId, hid, hsame'.userId, hsame.userId] at hread'
      · cases hstored

end Sys

/-- A result with one text. -/
def reportFields : List (PyStr × PyJson) := [(PyStr.ofString "text", .str (PyStr.ofString "done"))]

def reported : HandlerResult := ⟨true, some reportFields, none, none, false⟩

def reportedOutcome : Outcome := .returned ⟨true, false, some "\x7b\"text\": \"done\"\x7d", none, none⟩

theorem reported_outcome :
    (Finished.returned reported).outcome Fleet.asciiPrintable = some reportedOutcome := by
  decide +kernel

theorem reported_readable : (Finished.returned reported).Readable plainInterpreter := by
  rintro _ ⟨⟩
  exact ⟨⟨trivial, trivial⟩, by decide⟩

/-- The first run of a chain of two jobs is claimed. -/
def upstreamRun : List Act :=
  [.at 0 (.create 0 (.echo none none none)),
    .at 0 (.create 0 (.echo none (some 1) (some "SUCCEEDED"))),
    .at 0 (.publish 0 10),
    .at second (.claim second 1 1)]

/-- It ends. -/
def reportedAct : Act := .at (2 * second) (.finish (2 * second) 1 1 reportedOutcome)

/-- The consumer makes the run of the second job, statement by statement, and a worker claims it. -/
def downstreamRun : List Act :=
  [.start (.poll (3 * second) 10) (3 * second)] ++ List.replicate 14 (.statement 0 fun _ => true) ++
    [.commit 0, .at (4 * second) (.publish (4 * second) 10),
      .at (5 * second) (.claim (5 * second) 2 2)]

/-- The second run reads what the action of the first has returned; another tenant reads nothing. -/
theorem downstreamRun_reads : ∃ σ σ₁ σ', Sys.runActs .minutely {} upstreamRun = some σ ∧
    σ.step .minutely reportedAct = some σ₁ ∧ Sys.runActs .minutely σ₁ downstreamRun = some σ' ∧
    σ'.tables.runs.map (fun r => (r.runId, r.status, r.waitForRunId)) =
      [(1, .succeeded, none), (2, .running, some 1)] ∧
    σ'.upstream plainInterpreter 1 "alice" = some (.ok (.ok (.dict reportFields))) ∧
    σ'.upstream plainInterpreter 1 "bob" = some (.ok .noResult) := by
  have hrun : ((Sys.runActs .minutely {} upstreamRun).bind fun σ =>
      (σ.step .minutely reportedAct).bind fun σ₁ => Sys.runActs .minutely σ₁ downstreamRun).map
        (fun σ' => σ'.tables.runs.map fun r => (r.runId, r.status, r.waitForRunId)) =
      some [(1, .succeeded, none), (2, .running, some 1)] := by decide +kernel
  obtain ⟨σ', hσ', hruns⟩ := Option.map_eq_some_iff.mp hrun
  obtain ⟨σ, hσ, hrest⟩ := Option.bind_eq_some_iff.mp hσ'
  obtain ⟨σ₁, hstep, hrest⟩ := Option.bind_eq_some_iff.mp hrest
  have hreach : Sys.Reach .minutely (Sys.DataOk Fleet.asciiPrintable plainInterpreter) σ := by
    refine Sys.Reach.init.runActs (fun τ a ha => ?_) hσ
    simp only [upstreamRun, List.mem_cons, List.not_mem_nil, or_false] at ha
    rcases ha with rfl | rfl | rfl | rfl <;> exact ⟨trivial, trivial⟩
  have hsteps : Sys.Steps .minutely (Sys.DataOk Fleet.asciiPrintable plainInterpreter) σ₁ σ' := by
    refine Sys.Steps.refl.runActs (fun τ a ha => ?_) hrest
    simp only [downstreamRun, List.mem_append, List.mem_cons, List.mem_replicate,
      List.not_mem_nil, or_false] at ha
    rcases ha with (rfl | ⟨-, rfl⟩) | rfl | rfl | rfl
    · exact ⟨rfl, trivial⟩
    all_goals exact ⟨trivial, trivial⟩
  obtain ⟨r, hr, hid, hread⟩ := (Sys.upstream_data hreach).2 (2 * second) 1 1 reportedOutcome
    (2 * second) (fun _ => true) σ₁ reported reportFields reported_outcome reported_readable
    (.inl rfl) rfl hstep
  have howner : r.userId = "alice" := by
    have howners : (Sys.runActs .minutely {} upstreamRun).map (fun σ =>
        σ.tables.runs.map (·.userId)) = some ["alice"] := by decide +kernel
    rw [hσ, Option.map_some, Option.some.injEq] at howners
    exact List.mem_singleton.mp (howners ▸ List.mem_map_of_mem hr)
  refine ⟨σ, σ₁, σ', hσ, hstep, hrest, hruns, ?_, ?_⟩
  · rw [hread σ' hsteps "alice", howner]
    rfl
  · rw [hread σ' hsteps "bob", howner]
    rfl

end TaskScheduler
