import TaskScheduler.Config.DateTime
import TaskScheduler.Connections.Store
import TaskScheduler.Lib.Pages

/-! `GitHubDigestHandler.execute` of `app/actions/github_digest.py`: the connection, a loop over the
pages of issues for every label, and a loop over the pages of pull requests. -/

namespace TaskScheduler.Github

open Connections Lib

/-! ### The answers of the GitHub API -/

/-- An entry of `GET /repos/{repo}/issues`, which lists pull requests, too. -/
structure IssueEntry where
  number : Int
  title : String
  htmlUrl : String
  pullRequest : Bool
  deriving DecidableEq, Repr

/-- An entry of `GET /repos/{repo}/pulls`; `updatedAt` is the instant that `updated_at` names. -/
structure PullEntry where
  number : Int
  title : String
  htmlUrl : String
  updatedAt : Int
  deriving DecidableEq, Repr

/-- A response: its status, its `x-ratelimit-remaining`, and the list that a successful one has. -/
structure Response (α : Type) where
  status : Nat
  rateLimitRemaining : Option String
  items : List α

/-- A request ends with a response, or with an exception of httpx. -/
inductive Reply (α : Type)
  | response (resp : Response α)
  | timeout (exc : String)
  | requestError (exc : String)

/-- The API, by repository, label and page. -/
structure Api where
  issues : String → String → Nat → Reply IssueEntry
  pulls : String → Nat → Reply PullEntry

/-! ### The result -/

/-- `_IssueItem`. -/
structure IssueItem where
  number : Int
  title : String
  url : String
  deriving DecidableEq, Repr

/-- `_PRItem`. -/
structure PRItem where
  number : Int
  title : String
  url : String
  staleDays : Int
  deriving DecidableEq, Repr

/-- `labels_result`, by label. -/
abbrev LabelsResult := List (String × List IssueItem)

/-- `GitHubDigestResult`. -/
structure DigestResult where
  repo : String
  queriedAt : String
  labels : LabelsResult
  openCount : Nat
  stuck : List PRItem
  deriving DecidableEq, Repr

structure ActionResult where
  ok : Bool
  result : Option DigestResult
  error : Option String
  errorCode : Option String := none
  retryable : Bool := true
  deriving DecidableEq, Repr

/-- How `execute` ends: it returns, or an exception leaves it. -/
inductive Outcome
  | raised
  | returned (res : ActionResult)
  deriving DecidableEq, Repr

/-- A failed `ActionResult` of this module. -/
def failure (error : String) (retryable : Bool) : ActionResult :=
  { ok := false, result := none, error := some error, retryable := retryable }

/-- `missing_connection_result("github")`. -/
def missingConnectionResult (connectionsBaseUrl : String) : ActionResult where
  ok := false
  result := none
  error := some ("Your Github connection has expired or been revoked. " ++
    "Reconnect at " ++ connectionsBaseUrl ++ "/connections")
  errorCode := some "MISSING_CONNECTION"
  retryable := false

/-- `is_success`. -/
def isSuccess (status : Nat) : Bool := 200 ≤ status && status ≤ 299

/-- `_classify_error`. -/
def classifyError (status : Nat) (rateLimitRemaining : Option String) : Option ActionResult :=
  if isSuccess status then none
  else if status = 401 then
    some (failure ("GitHub API 401 Unauthorized — the stored GitHub connection is invalid " ++
      "or revoked; reconnect at /connections") false)
  else if status = 403 then
    if rateLimitRemaining.getD "1" = "0" then
      some (failure "GitHub API 403 rate-limited (x-ratelimit-remaining=0)" true)
    else some (failure "GitHub API 403 Forbidden — insufficient permissions" false)
  else if status = 404 then
    some (failure "GitHub API 404 Not Found — repo not found or inaccessible" false)
  else if status = 422 then some (failure "GitHub API 422 Unprocessable Entity" false)
  else if status ≥ 500 then
    some (failure ("GitHub API " ++ toString status ++ " Server Error") true)
  else some (failure ("GitHub API " ++ toString status) false)

/-- `client.get`, `_classify_error` and `resp.json()`: the entries of a page, or the result that the
action ends with; the exceptions of httpx are caught in `execute`. -/
def received {α : Type} : Reply α → Except ActionResult (List α)
  | .timeout exc => .error (failure exc true)
  | .requestError exc => .error (failure exc true)
  | .response resp =>
    match classifyError resp.status resp.rateLimitRemaining with
    | some err => .error err
    | none => .ok resp.items

/-! ### The loops -/

/-- `per_page`. -/
def perPage : Nat := 100

def IssueEntry.item (i : IssueEntry) : IssueItem := ⟨i.number, i.title, i.htmlUrl⟩

/-- `labels_result[label].append(...)`. -/
def appendTo (label : String) (d : LabelsResult) (item : IssueItem) : LabelsResult :=
  d.map fun kv => if kv.1 = label then (kv.1, kv.2 ++ [item]) else kv

/-- The loop over the entries of a page. -/
def addIssues (label : String) (d : LabelsResult) (items : List IssueEntry) : LabelsResult :=
  items.foldl (fun d item => if item.pullRequest then d else appendTo label d item.item) d

/-- The loop over the labels, with what is left of them. -/
def queryLabelsLoop (api : Api) (repo : String) (fuel : Nat) :
    List String → LabelsResult → Option (Except ActionResult LabelsResult)
  | [], d => some (.ok d)
  | label :: labels, d =>
    match readPages perPage (fun page => received (api.issues repo label page)) (addIssues label)
      fuel 1 d with
    | none => none
    | some (.error err) => some (.error err)
    | some (.ok d) => queryLabelsLoop api repo fuel labels d

/-- `_query_labels`; a dict has one entry for labels that are equal. -/
def queryLabels (api : Api) (fuel : Nat) (repo : String) (labels : List String) :
    Option (Except ActionResult LabelsResult) :=
  queryLabelsLoop api repo fuel labels (labels.eraseDups.map fun label => (label, []))

/-- `timedelta(days=...)`, unless it overflows. -/
def timedeltaDays (days : Int) : Option Int :=
  if days.natAbs ≤ 999999999 then some (days * dayMicros) else none

/-- `_PRItem` of an entry, with the days since it was updated. -/
def PullEntry.item (now : Int) (pr : PullEntry) : PRItem :=
  ⟨pr.number, pr.title, pr.htmlUrl, (now - pr.updatedAt) / dayMicros⟩

/-- The loop over the entries of a page: `open_count` and `stuck`. -/
def addPulls (now staleThreshold : Int) (acc : Nat × List PRItem) (items : List PullEntry) :
    Nat × List PRItem :=
  (acc.1 + items.length, items.foldl (fun stuck pr =>
    if staleThreshold ≤ now - pr.updatedAt then stuck ++ [pr.item now] else stuck) acc.2)

/-- `_query_prs`, past the threshold. -/
def queryPrs (api : Api) (fuel : Nat) (repo : String) (now staleThreshold : Int) :
    Option (Except ActionResult (Nat × List PRItem)) :=
  readPages perPage (fun page => received (api.pulls repo page)) (addPulls now staleThreshold) fuel
    1 (0, [])

/-- `GitHubDigestParams`. -/
structure DigestParams where
  repo : String
  labels : List String
  prStaleDays : Int
  deriving DecidableEq, Repr

/-- `execute` once it has a token; `now` is the clock in `_query_prs`, and `queriedAt` the text of
it at the end.  `none` while a loop is still running when the fuel is spent. -/
def digest (api : Api) (fuel : Nat) (params : DigestParams) (now : Int) (queriedAt : String) :
    Option Outcome :=
  match queryLabels api fuel params.repo params.labels with
  | none => none
  | some (.error err) => some (.returned err)
  | some (.ok labels) =>
    match timedeltaDays params.prStaleDays with
    | none => some .raised
    | some staleThreshold =>
      match queryPrs api fuel params.repo now staleThreshold with
      | none => none
      | some (.error err) => some (.returned err)
      | some (.ok (openCount, stuck)) =>
        some (.returned {
          ok := true
          result := some ⟨params.repo, queriedAt, labels, openCount, stuck⟩
          error := none
          retryable := false })

/-- What `execute` has before it queries the API. -/
inductive GithubToken
  | missingConnection
  | raised (e : StoreError)
  | token (t : Json)

section Execute

variable {Blob : Type}

/-- The beginning of `execute`: the check and then the token, without a refresher. -/
def githubToken (envelope : Option (KmsEnvelope Blob)) (fromisoformat : String → Option Int)
    (window now now' : Int) (userId : String) (w : World Blob) : GithubToken × World Blob :=
  match checkOauthForExecute envelope fromisoformat none window now now 0 userId "github" w with
  | (false, w) => (.missingConnection, w)
  | (true, w) =>
    match getToken envelope fromisoformat none window now' 0 userId "github" w with
    | (.error .connectionMiss, w) => (.missingConnection, w)
    | (.error e, w) => (.raised e, w)
    | (.ok token, w) => (.token token, w)

/-- The settings, the readings of the clock and the API that one execution meets; what the API
answers depends on the token. -/
structure Env (Blob : Type) where
  envelope : Option (KmsEnvelope Blob)
  fromisoformat : String → Option Int
  connectionsBaseUrl : String
  window : Int
  checkedAt : Int
  fetchedAt : Int
  now : Int
  queriedAt : String
  api : Json → Api

/-- `GitHubDigestHandler.execute`. -/
def execute (env : Env Blob) (fuel : Nat) (userId : String) (params : DigestParams)
    (w : World Blob) : Option Outcome :=
  match (githubToken env.envelope env.fromisoformat env.window env.checkedAt env.fetchedAt userId
    w).1 with
  | .missingConnection => some (.returned (missingConnectionResult env.connectionsBaseUrl))
  | .raised _ => some .raised
  | .token token => digest (env.api token) fuel params env.now env.queriedAt

end Execute

/-! ### A repository and its pages -/

structure Issue where
  entry : IssueEntry
  labels : List String
  isOpen : Bool

structure Pull where
  entry : PullEntry
  isOpen : Bool

/-- What a repository holds, in the order in which it is served. -/
structure Repository where
  issues : List Issue
  pulls : List Pull

namespace Repository

/-- The open issues and pull requests with a label. -/
def labelled (r : Repository) (label : String) : List IssueEntry :=
  (r.issues.filter fun i => i.isOpen && i.labels.contains label).map (·.entry)

def openPulls (r : Repository) : List PullEntry := (r.pulls.filter (·.isOpen)).map (·.entry)

/-- The API that serves the repository and never fails. -/
def served (r : Repository) : Api where
  issues _ label page := .response ⟨200, none, pageOf perPage (r.labelled label) (page - 1)⟩
  pulls _ page := .response ⟨200, none, pageOf perPage r.openPulls (page - 1)⟩

/-- The digest: for every label the open issues that have it and are no pull requests, the number of
open pull requests, and those that are old enough. -/
def digest (r : Repository) (params : DigestParams) (now : Int) (queriedAt : String) :
    DigestResult where
  repo := params.repo
  queriedAt := queriedAt
  labels := params.labels.map fun label => (label, (r.issues.filter fun i =>
    i.isOpen && i.labels.contains label && !i.entry.pullRequest).map (·.entry.item))
  openCount := (r.pulls.filter (·.isOpen)).length
  stuck := (r.openPulls.filter fun pr =>
    decide (params.prStaleDays * dayMicros ≤ now - pr.updatedAt)).map (·.item now)

end Repository

/-- Every request for a page is answered by the page, or ends with an error. -/
structure Answers (api : Api) (repo : String) (r : Repository) : Prop where
  issues : ∀ label k, received (api.issues repo label (k + 1)) =
    .ok (pageOf perPage (r.labelled label) k) ∨
      ∃ err, received (api.issues repo label (k + 1)) = .error err
  pulls : ∀ k, received (api.pulls repo (k + 1)) = .ok (pageOf perPage r.openPulls k) ∨
    ∃ err, received (api.pulls repo (k + 1)) = .error err

/-- An error on a page of a list of issues that the loops come to. -/
def IssuesFail (api : Api) (repo : String) (r : Repository) (labels : List String) : Prop :=
  ∃ label ∈ labels, ∃ k ≤ (r.labelled label).length / perPage,
    ∃ err, received (api.issues repo label (k + 1)) = .error err

/-- An error on a page of the pull requests. -/
def PullsFail (api : Api) (repo : String) (r : Repository) : Prop :=
  ∃ k ≤ r.openPulls.length / perPage, ∃ err, received (api.pulls repo (k + 1)) = .error err

/-- The action has failed as a whole: there is no result, not even a partial one. -/
def Outcome.Failed : Outcome → Prop
  | .raised => True
  | .returned res => res.ok = false ∧ res.result = none

/-- With enough fuel the run ends, always with the same outcome, and `P` holds of it. -/
def Ends (run : Nat → Option Outcome) (P : Outcome → Prop) : Prop :=
  ∃ outcome, P outcome ∧ ∃ n, ∀ fuel, n ≤ fuel → run fuel = some outcome

/-! ### Pages of issues -/

theorem received_error {α : Type} {reply : Reply α} {err : ActionResult}
    (h : received reply = .error err) : (Outcome.returned err).Failed := by
  unfold received at h
  split at h
  · cases h
    exact ⟨rfl, rfl⟩
  · cases h
    exact ⟨rfl, rfl⟩
  · next resp =>
    unfold classifyError at h
    split at h
    · next herr =>
      cases h
      split_ifs at herr <;> cases herr <;> exact ⟨rfl, rfl⟩
    · cases h

/-- The entries that the loop keeps. -/
def keptItems (items : List IssueEntry) : List IssueItem :=
  (items.filter fun i => !i.pullRequest).map (·.item)

theorem addIssues_eq (label : String) (d : LabelsResult) (items : List IssueEntry) :
    addIssues label d items =
      d.map fun kv => if kv.1 = label then (kv.1, kv.2 ++ keptItems items) else kv := by
  induction items generalizing d with
  | nil => simp [addIssues, keptItems]
  | cons item items ih =>
    unfold addIssues at ih ⊢
    rw [List.foldl_cons, ih]
    cases hpr : item.pullRequest with
    | true => simp [keptItems, hpr]
    | false =>
      rw [if_neg Bool.false_ne_true, appendTo, List.map_map]
      congr 1
      funext kv
      by_cases hkv : kv.1 = label
      · simp [keptItems, hpr, hkv]
      · simp [hkv]

/-- The labels are distinct: each gets the entries of its own pages, once. -/
theorem foldl_addIssues {labels : List String} (hnodup : labels.Nodup)
    (content : String → List IssueEntry) (d : LabelsResult) :
    labels.foldl (fun d label => addIssues label d (content label)) d =
      d.map fun kv => if kv.1 ∈ labels then (kv.1, kv.2 ++ keptItems (content kv.1)) else kv := by
  induction labels generalizing d with
  | nil => simp
  | cons label labels ih =>
    obtain ⟨hlabel, hnodup⟩ := List.nodup_cons.mp hnodup
    rw [List.foldl_cons, ih hnodup, addIssues_eq, List.map_map]
    congr 1
    funext kv
    by_cases hkv : kv.1 = label
    · simp [hkv, hlabel]
    · simp [hkv]

theorem eraseDups_of_nodup {labels : List String} (hnodup : labels.Nodup) :
    labels.eraseDups = labels := by
  induction labels with
  | nil => rfl
  | cons label labels ih =>
    obtain ⟨hlabel, hnodup⟩ := List.nodup_cons.mp hnodup
    have hfilter : (labels.filter fun b => !b == label) = labels := by
      rw [List.filter_eq_self]
      intro b hb
      simp only [Bool.not_eq_true', beq_eq_false_iff_ne]
      rintro rfl
      exact hlabel hb
    rw [List.eraseDups_cons, hfilter, ih hnodup]

section Loops

variable {api : Api} {repo : String} {fuel : Nat} {r : Repository}

theorem readIssues_ok {label : String}
    (hpages : ∀ k ≤ (r.labelled label).length / perPage,
      received (api.issues repo label (k + 1)) = .ok (pageOf perPage (r.labelled label) k))
    (hfuel : (r.labelled label).length / perPage < fuel) (d : LabelsResult) :
    readPages perPage (fun page => received (api.issues repo label page)) (addIssues label) fuel 1
      d = some (.ok (addIssues label d (r.labelled label))) :=
  readPages_ok _ _ (by decide) (fun _ _ _ => List.foldl_append.symm) hpages hfuel d

theorem queryLabelsLoop_ok {labels : List String}
    (hpages : ∀ label ∈ labels, ∀ k ≤ (r.labelled label).length / perPage,
      received (api.issues repo label (k + 1)) = .ok (pageOf perPage (r.labelled label) k))
    (hfuel : ∀ label ∈ labels, (r.labelled label).length / perPage < fuel) (d : LabelsResult) :
    queryLabelsLoop api repo fuel labels d =
      some (.ok (labels.foldl (fun d label => addIssues label d (r.labelled label)) d)) := by
  induction labels generalizing d with
  | nil => rfl
  | cons label labels ih =>
    have hread := readIssues_ok (hpages label List.mem_cons_self)
      (hfuel label List.mem_cons_self) d
    simp only [queryLabelsLoop, hread]
    exact ih (fun l hl => hpages l (List.mem_cons_of_mem _ hl))
      (fun l hl => hfuel l (List.mem_cons_of_mem _ hl)) _

/-- An error on a page of one label is the result for all of them. -/
theorem queryLabelsLoop_error {labels : List String} (hanswers : Answers api repo r)
    (hfails : IssuesFail api repo r labels)
    (hfuel : ∀ label ∈ labels, (r.labelled label).length / perPage < fuel) (d : LabelsResult) :
    ∃ err, queryLabelsLoop api repo fuel labels d = some (.error err) ∧
      (Outcome.returned err).Failed := by
  induction labels generalizing d with
  | nil =>
    obtain ⟨label, hlabel, -⟩ := hfails
    cases hlabel
  | cons label labels ih =>
    have hlast := hfuel label List.mem_cons_self
    by_cases hhere : ∃ k ≤ (r.labelled label).length / perPage,
        ∃ err, received (api.issues repo label (k + 1)) = .error err
    · obtain ⟨err, page, hread, herr⟩ := readPages_error
        (fun page => received (api.issues repo label page)) (addIssues label) (by decide)
        (fun k _ => hanswers.issues label k) hhere hlast d
      exact ⟨err, by simp only [queryLabelsLoop, hread], received_error herr⟩
    · have hread := readIssues_ok (fun k hk => (hanswers.issues label k).resolve_right
        fun herr => hhere ⟨k, hk, herr⟩) hlast d
      simp only [queryLabelsLoop, hread]
      refine ih ?_ (fun l hl => hfuel l (List.mem_cons_of_mem _ hl)) _
      obtain ⟨l, hl, herr⟩ := hfails
      rcases List.mem_cons.mp hl with rfl | hl
      · exact absurd herr hhere
      · exact ⟨l, hl, herr⟩

/-- The result for distinct labels: the entries of each, in the order in which they are served. -/
theorem queryLabels_ok {labels : List String} (hnodup : labels.Nodup)
    (hanswers : Answers api repo r) (hfails : ¬IssuesFail api repo r labels)
    (hfuel : ∀ label ∈ labels, (r.labelled label).length / perPage < fuel) :
    queryLabels api fuel repo labels =
      some (.ok (labels.map fun label => (label, keptItems (r.labelled label)))) := by
  have hpages : ∀ label ∈ labels, ∀ k ≤ (r.labelled label).length / perPage,
      received (api.issues repo label (k + 1)) = .ok (pageOf perPage (r.labelled label) k) :=
    fun label hlabel k hk => (hanswers.issues label k).resolve_right
      fun herr => hfails ⟨label, hlabel, k, hk, herr⟩
  rw [queryLabels, queryLabelsLoop_ok hpages hfuel, foldl_addIssues hnodup,
    eraseDups_of_nodup hnodup, List.map_map]
  congr 2
  refine List.map_congr_left fun label hlabel => ?_
  simp [hlabel]

/-! ### Pages of pull requests -/

theorem addPulls_eq (now staleThreshold : Int) (acc : Nat × List PRItem) (items : List PullEntry) :
    addPulls now staleThreshold acc items = (acc.1 + items.length, acc.2 ++
      (items.filter fun pr => decide (staleThreshold ≤ now - pr.updatedAt)).map (·.item now)) := by
  unfold addPulls
  congr 1
  generalize acc.2 = stuck
  induction items generalizing stuck with
  | nil => simp
  | cons pr items ih =>
    rw [List.foldl_cons, ih]
    by_cases hstale : staleThreshold ≤ now - pr.updatedAt
    · simp [hstale]
    · simp [hstale]

theorem queryPrs_ok (hanswers : Answers api repo r) (hfails : ¬PullsFail api repo r)
    (hfuel : r.openPulls.length / perPage < fuel) (now staleThreshold : Int) :
    queryPrs api fuel repo now staleThreshold = some (.ok (r.openPulls.length,
      (r.openPulls.filter fun pr => decide (staleThreshold ≤ now - pr.updatedAt)).map
        (·.item now))) := by
  have hread := readPages_ok (fun page => received (api.pulls repo page))
    (addPulls now staleThreshold) (by decide)
    (fun acc xs ys => by simp [addPulls_eq, Nat.add_assoc])
    (fun k hk => (hanswers.pulls k).resolve_right fun herr => hfails ⟨k, hk, herr⟩) hfuel (0, [])
  rw [queryPrs, hread, addPulls_eq, Nat.zero_add, List.nil_append]

theorem queryPrs_error (hanswers : Answers api repo r) (hfails : PullsFail api repo r)
    (hfuel : r.openPulls.length / perPage < fuel) (now staleThreshold : Int) :
    ∃ err, queryPrs api fuel repo now staleThreshold = some (.error err) ∧
      (Outcome.returned err).Failed := by
  obtain ⟨err, page, hread, herr⟩ := readPages_error (fun page => received (api.pulls repo page))
    (addPulls now staleThreshold) (by decide) (fun k _ => hanswers.pulls k) hfails hfuel (0, [])
  exact ⟨err, hread, received_error herr⟩

end Loops

/-! ### The action -/

theorem keptItems_labelled (r : Repository) (label : String) :
    keptItems (r.labelled label) = (r.issues.filter fun i =>
      i.isOpen && i.labels.contains label && !i.entry.pullRequest).map (·.entry.item) := by
  simp only [keptItems, Repository.labelled, List.filter_map, List.filter_filter, List.map_map]
  congr 1
  refine List.filter_congr fun i _ => ?_
  exact Bool.and_comm _ _

/-- Fuel for every loop over the pages of the repository. -/
def Repository.fuel (r : Repository) : Nat := r.issues.length + r.pulls.length + 1

theorem Repository.fuel_label (r : Repository) (label : String) :
    (r.labelled label).length / perPage < r.fuel := by
  have hdiv := Nat.div_le_self (r.labelled label).length perPage
  have hle : (r.labelled label).length ≤ r.issues.length := by
    rw [labelled, List.length_map]
    exact List.length_filter_le _ _
  unfold fuel
  omega

theorem Repository.fuel_pulls (r : Repository) : r.openPulls.length / perPage < r.fuel := by
  have hdiv := Nat.div_le_self r.openPulls.length perPage
  have hle : r.openPulls.length ≤ r.pulls.length := by
    rw [openPulls, List.length_map]
    exact List.length_filter_le _ _
  unfold fuel
  omega

section Digest

variable {api : Api} {params : DigestParams} {now : Int} {queriedAt : String} {r : Repository}

theorem queryLabelsLoop_mono {m n : Nat} (hmn : m ≤ n) {repo : String} {labels : List String}
    {d : LabelsResult} {res : Except ActionResult LabelsResult}
    (h : queryLabelsLoop api repo m labels d = some res) :
    queryLabelsLoop api repo n labels d = some res := by
  induction labels generalizing d with
  | nil => exact h
  | cons label labels ih =>
    unfold queryLabelsLoop at h ⊢
    split at h
    · cases h
    · next hread => rwa [readPages_mono hmn hread]
    · next hread =>
      rw [readPages_mono hmn hread]
      exact ih h

/-- An outcome that is reached with some fuel is reached with more. -/
theorem digest_mono {m n : Nat} (hmn : m ≤ n) {outcome : Outcome}
    (h : digest api m params now queriedAt = some outcome) :
    digest api n params now queriedAt = some outcome := by
  unfold digest at h ⊢
  split at h
  · cases h
  · next hlabels => rwa [queryLabels, queryLabelsLoop_mono hmn hlabels]
  · next hlabels =>
    simp only [queryLabels, queryLabelsLoop_mono hmn hlabels]
    split at h
    · exact h
    · split at h
      · cases h
      · next hprs => rwa [queryPrs, readPages_mono hmn hprs]
      · next hprs => rwa [queryPrs, readPages_mono hmn hprs]

/-- Without an error, the action ends with the digest, unless the threshold overflows. -/
theorem digest_ok (now : Int) (queriedAt : String) (hnodup : params.labels.Nodup)
    (hanswers : Answers api params.repo r)
    (hissues : ¬IssuesFail api params.repo r params.labels)
    (hpulls : ¬PullsFail api params.repo r) :
    digest api r.fuel params now queriedAt =
      some (if params.prStaleDays.natAbs ≤ 999999999 then
        .returned { ok := true, result := some (r.digest params now queriedAt), error := none,
                    retryable := false }
      else .raised) := by
  have hlabels := queryLabels_ok hnodup hanswers hissues fun label _ => r.fuel_label label
  have hprs := queryPrs_ok hanswers hpulls r.fuel_pulls now
  simp only [digest, hlabels, timedeltaDays]
  split_ifs with hdays
  · simp only [hprs, keptItems_labelled, Repository.digest, Repository.openPulls, List.length_map]
  · rfl

/-- An error on a page of issues or of pull requests fails the action as a whole. -/
theorem digest_error (now : Int) (queriedAt : String) (hnodup : params.labels.Nodup)
    (hanswers : Answers api params.repo r)
    (hfails : IssuesFail api params.repo r params.labels ∨ PullsFail api params.repo r) :
    ∃ outcome, digest api r.fuel params now queriedAt = some outcome ∧ outcome.Failed := by
  by_cases hissues : IssuesFail api params.repo r params.labels
  · obtain ⟨err, hlabels, herr⟩ := queryLabelsLoop_error hanswers hissues
      (fun label _ => r.fuel_label label) (params.labels.eraseDups.map fun label => (label, []))
    exact ⟨_, by simp only [digest, queryLabels, hlabels], herr⟩
  · have hlabels := queryLabels_ok hnodup hanswers hissues fun label _ => r.fuel_label label
    simp only [digest, hlabels]
    cases timedeltaDays params.prStaleDays with
    | none => exact ⟨_, rfl, trivial⟩
    | some staleThreshold =>
      obtain ⟨err, hprs, herr⟩ := queryPrs_error hanswers (hfails.resolve_left hissues)
        r.fuel_pulls now staleThreshold
      exact ⟨_, by simp only [hprs], herr⟩

end Digest

/-- What `execute` owes with a token: from a repository that is served without an error it ends with
the digest, and with an error on a page that it comes to it ends without a result. -/
def DigestExact {Blob : Type} (env : Env Blob) (userId : String) (params : DigestParams)
    (w : World Blob) (r : Repository) : Prop :=
  ∀ (api : Json → Api) (token : Json),
    (githubToken env.envelope env.fromisoformat env.window env.checkedAt env.fetchedAt userId
      w).1 = .token token →
    Answers (api token) params.repo r →
    (¬IssuesFail (api token) params.repo r params.labels → ¬PullsFail (api token) params.repo r →
      Ends (fun fuel => execute { env with api := api } fuel userId params w) fun outcome =>
        outcome = .returned { ok := true, result := some (r.digest params env.now env.queriedAt),
                              error := none, retryable := false }) ∧
    (IssuesFail (api token) params.repo r params.labels ∨ PullsFail (api token) params.repo r →
      Ends (fun fuel => execute { env with api := api } fuel userId params w) Outcome.Failed)

theorem served_answers (r : Repository) (repo : String) : Answers r.served repo r :=
  ⟨fun _ _ => .inl rfl, fun _ => .inl rfl⟩

theorem served_issues (r : Repository) (repo : String) (labels : List String) :
    ¬IssuesFail r.served repo r labels := by
  rintro ⟨label, -, k, -, err, herr⟩
  cases herr

theorem served_pulls (r : Repository) (repo : String) : ¬PullsFail r.served repo r := by
  rintro ⟨k, -, err, herr⟩
  cases herr

/-- The digest of distinct labels is exact just when `timedelta` has a threshold of as many days. -/
theorem digestExact_iff {Blob : Type} (env : Env Blob) (userId : String) (params : DigestParams)
    (w : World Blob) (r : Repository) {token : Json} (hnodup : params.labels.Nodup)
    (hconnected : (githubToken env.envelope env.fromisoformat env.window env.checkedAt env.fetchedAt
      userId w).1 = .token token) :
    DigestExact env userId params w r ↔ params.prStaleDays.natAbs ≤ 999999999 := by
  have hexecute : ∀ (api : Json → Api) (fuel : Nat),
      execute { env with api := api } fuel userId params w =
        digest (api token) fuel params env.now env.queriedAt := by
    intro api fuel
    simp only [execute, hconnected]
  constructor
  · intro h
    obtain ⟨outcome, rfl, n, hn⟩ := (h (fun _ => r.served) token hconnected
      (served_answers r _)).1 (served_issues r _ _) (served_pulls r _)
    by_contra hdays
    -- with as much fuel as the loops need, the outcome is the exception
    have hraised := digest_mono (Nat.le_max_right n r.fuel) (digest_ok env.now env.queriedAt hnodup
      (served_answers r _) (served_issues r _ _) (served_pulls r _))
    have hreturned := (hexecute (fun _ => r.served) _).symm.trans (hn _ (Nat.le_max_left n r.fuel))
    rw [hreturned, if_neg hdays] at hraised
    cases hraised
  · intro hdays api token' htoken hanswers
    obtain rfl : token = token' := by
      rw [hconnected] at htoken
      exact GithubToken.token.inj htoken
    refine ⟨fun hissues hpulls => ⟨_, rfl, r.fuel, fun fuel hfuel => ?_⟩, fun hfails => ?_⟩
    · have hreturned := digest_mono hfuel
        (digest_ok env.now env.queriedAt hnodup hanswers hissues hpulls)
      rw [if_pos hdays] at hreturned
      exact (hexecute api fuel).trans hreturned
    · obtain ⟨outcome, houtcome, hfailed⟩ :=
        digest_error env.now env.queriedAt hnodup hanswers hfails
      exact ⟨outcome, hfailed, r.fuel, fun fuel hfuel =>
        (hexecute api fuel).trans (digest_mono hfuel houtcome)⟩

/-- An execution for a user with a GitHub connection. -/
def connectedEnv : Env JsonObject where
  envelope := some plainEnvelope
  fromisoformat _ := none
  connectionsBaseUrl := "http://localhost:8000"
  window := 0
  checkedAt := 0
  fetchedAt := 0
  now := 0
  queriedAt := "1970-01-01T00:00:00+00:00"
  api _ := ⟨fun _ _ _ => .timeout "", fun _ _ => .timeout ""⟩

def connectedWorld : World JsonObject :=
  { committed := [⟨"alice", "github", [("access_token", .str "t")], none⟩] }

/-- A repository with an issue under two labels, and a pull request that is three days old. -/
def smallRepository : Repository where
  issues := [⟨⟨1, "crash", "issues/1", false⟩, ["bug", "ci"], true⟩,
    ⟨⟨2, "fix", "pull/2", true⟩, ["bug"], true⟩]
  pulls := [⟨⟨2, "fix", "pull/2", -3 * dayMicros⟩, true⟩]

theorem smallDigest_exact : DigestExact connectedEnv "alice" ⟨"o/r", ["bug", "ci"], 3⟩
    connectedWorld smallRepository :=
  (digestExact_iff connectedEnv "alice" ⟨"o/r", ["bug", "ci"], 3⟩ connectedWorld smallRepository
    (by decide) rfl).mpr (by decide)

/-- A threshold of a billion days overflows: the action raises, although the API never fails. -/
theorem hugeThreshold_not_exact : ¬DigestExact connectedEnv "alice"
    ⟨"o/r", ["bug", "ci"], 1000000000⟩ connectedWorld smallRepository := by
  intro h
  obtain ⟨outcome, rfl, n, hn⟩ := (h (fun _ => smallRepository.served) (.str "t") rfl
    (served_answers _ _)).1 (served_issues _ _ _) (served_pulls _ _)
  have hraised : digest smallRepository.served smallRepository.fuel
      ⟨"o/r", ["bug", "ci"], 1000000000⟩ 0 connectedEnv.queriedAt = some .raised :=
    digest_ok _ _ (by decide) (served_answers _ _) (served_issues _ _ _) (served_pulls _ _)
  have hreturned := hn _ (Nat.le_max_left n smallRepository.fuel)
  cases hreturned.symm.trans (digest_mono (Nat.le_max_right n smallRepository.fuel) hraised)

end TaskScheduler.Github
