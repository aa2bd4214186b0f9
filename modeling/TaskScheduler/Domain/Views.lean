import TaskScheduler.Domain.Jobs

/-! What a user reads: the status and the list of jobs of `app/domain/jobs.py`, and the result of an
upstream run in `app/chain/upstream_reader.py`. -/

namespace TaskScheduler

/-! ### `get_job_with_runs` -/

structure RunView where
  runId : Nat
  status : RunStatus
  scheduledAt : Int
  startAt : Option Int
  finishAt : Option Int
  errorCode : Option String
  errorMessage : Option String
  deriving DecidableEq, Repr

def JobRun.view (r : JobRun) : RunView :=
  ⟨r.runId, r.status, r.scheduledAt, r.startAt, r.finishAt, r.errorCode, r.errorMessage⟩

structure JobView where
  jobId : Nat
  action : String
  jobState : JobState
  latestRunStatus : Option RunStatus
  runs : Option (List RunView)
  jobType : JobType
  createdAt : Int
  triggeredBy : Option Nat
  errorCode : Option String
  errorMessage : Option String
  deriving DecidableEq, Repr

/-- `ORDER BY coalesce(start_at, scheduled_at) DESC`; rows with the same key stay in table order. -/
def newestFirst (runs : List JobRun) : List JobRun :=
  runs.insertionSort fun a b => b.latestKey ≤ a.latestKey

/-- The view of a job with the runs `dbRuns`, newest first. -/
def jobView (job : Job) (includeRuns : Bool) (dbRuns : List JobRun) : JobView where
  jobId := job.jobId
  action := job.action
  jobState := job.state
  latestRunStatus := dbRuns.head?.map (·.status)
  runs := if includeRuns then some (dbRuns.map JobRun.view) else none
  jobType := job.jobType
  createdAt := job.createdAt
  triggeredBy := job.triggerOnJobId
  errorCode := dbRuns.head?.bind (·.errorCode)
  errorMessage := dbRuns.head?.bind (·.errorMessage)

/-- `get_job_with_runs`. -/
def getJobWithRuns (userId : String) (jobId : Nat) (includeRuns : Bool) (runLimit : Nat) :
    Txn JobView := do
  match (← Txn.loadJobs fun j => j.jobId == jobId && j.userId == userId).head? with
  | none => Txn.raise (.jobNotFound jobId)
  | some job =>
    let runs ← Txn.selectRuns fun r => r.jobId == jobId
    return jobView job includeRuns ((newestFirst runs).take (if includeRuns then runLimit else 1))

/-! ### `list_jobs` -/

/-- The filters and the page of `list_jobs`; no `job_state_filter` is the empty one. -/
structure ListFilter where
  statusFilter : Option (List RunStatus)
  jobStateFilter : List JobState
  createdAtFrom : Option Int
  createdAtTo : Option Int
  page : Int
  pageSize : Int
  deriving DecidableEq, Repr

structure JobListItem where
  jobId : Nat
  action : String
  createdAt : Int
  jobState : JobState
  latestRunStatus : Option RunStatus
  deriving DecidableEq, Repr

structure PagedJobs where
  items : List JobListItem
  total : Nat
  page : Int
  pageSize : Int
  deriving DecidableEq, Repr

/-- The latest run is one with the largest key. -/
theorem latestRun_spec {runs : List JobRun} {m : JobRun} (h : latestRun runs = some m) :
    m ∈ runs ∧ ∀ r ∈ runs, r.latestKey ≤ m.latestKey := by
  induction runs generalizing m with
  | nil => cases h
  | cons r rs ih =>
    simp only [latestRun] at h
    cases hrest : latestRun rs with
    | none =>
      rw [hrest] at h
      cases h
      have hnil : rs = [] := by
        cases rs with
        | nil => rfl
        | cons r' rs =>
          simp only [latestRun] at hrest
          split at hrest
          · cases hrest
          · split at hrest <;> cases hrest
      subst hnil
      exact ⟨List.mem_cons_self, fun x hx => by rw [List.mem_singleton.mp hx]⟩
    | some m' =>
      obtain ⟨hmem, hmax⟩ := ih hrest
      rw [hrest] at h
      dsimp only at h
      split at h
      · next hle =>
        cases h
        refine ⟨List.mem_cons_self, fun x hx => ?_⟩
        rcases List.mem_cons.mp hx with rfl | hx
        · exact le_refl _
        · exact (hmax x hx).trans hle
      · next hnot =>
        cases h
        refine ⟨List.mem_cons_of_mem _ hmem, fun x hx => ?_⟩
        rcases List.mem_cons.mp hx with rfl | hx
        · exact le_of_not_ge hnot
        · exact hmax x hx

theorem exists_latestRun {runs : List JobRun} {r : JobRun} (h : r ∈ runs) :
    ∃ m, latestRun runs = some m := by
  cases runs with
  | nil => cases h
  | cons r rs =>
    simp only [latestRun]
    cases latestRun rs with
    | none => exact ⟨r, rfl⟩
    | some m =>
      dsimp only
      split
      · exact ⟨r, rfl⟩
      · exact ⟨m, rfl⟩

/-- Runs with keys of their own have one latest run. -/
theorem latestRun_eq {runs : List JobRun} (hkeys : (runs.map (·.latestKey)).Nodup) {r : JobRun}
    (hr : r ∈ runs) (hmax : ∀ x ∈ runs, x.latestKey ≤ r.latestKey) : latestRun runs = some r := by
  obtain ⟨m, hm⟩ := exists_latestRun hr
  obtain ⟨hmem, hle⟩ := latestRun_spec hm
  rw [hm, List.inj_on_of_nodup_map hkeys hmem hr (le_antisymm (hmax m hmem) (hle r hr))]

/-- The column of `latest_run_sq` that a job is joined with. -/
def latestRunStatus (t : Tables) (job : Job) : Option RunStatus :=
  (latestRun (t.runs.filter fun r => r.jobId == job.jobId)).map (·.status)

/-- `_base_where`. -/
def baseWhere (t : Tables) (userId : String) (f : ListFilter) (j : Job) : Bool :=
  j.userId == userId &&
    f.createdAtFrom.all (fun from_ => decide (from_ ≤ j.createdAt)) &&
    f.createdAtTo.all (fun to_ => decide (j.createdAt ≤ to_)) &&
    f.statusFilter.all fun statuses =>
      match latestRunStatus t j with
      | some status => decide (status ∈ statuses)
      | none => decide (j.state ∈ f.jobStateFilter)

/-- The count of `list_jobs` on the tables that its first statement sees. -/
def countJobs (t : Tables) (userId : String) (f : ListFilter) : Nat :=
  (t.jobs.filter (baseWhere t userId f)).length

/-- The page of `list_jobs` on the tables that its second statement sees; jobs that were created at
once stay in table order. -/
def pageJobs (t : Tables) (userId : String) (f : ListFilter) : List JobListItem :=
  ((((t.jobs.filter (baseWhere t userId f)).insertionSort fun a b => b.createdAt ≤ a.createdAt).drop
    ((f.page - 1) * f.pageSize).toNat).take f.pageSize.toNat).map fun j =>
      ⟨j.jobId, j.action, j.createdAt, j.state, latestRunStatus t j⟩

/-- What `LIMIT` and `OFFSET` take: the database refuses a negative number, and the driver one that
is no `bigint`. -/
def takesRows (n : Int) : Bool := decide (0 ≤ n) && decide (n < 2 ^ 63)

/-- Whether the statements of `list_jobs` go through: the driver takes each bound to UTC, where it may
overflow. -/
def ListFilter.inRange (f : ListFilter) : Bool :=
  f.createdAtFrom.all inUtcYears && f.createdAtTo.all inUtcYears &&
    takesRows ((f.page - 1) * f.pageSize) && takesRows f.pageSize

/-- `list_jobs`: its two statements see `t` and `t'`; `none` is an error of the driver or of the
database. -/
def listJobs (t t' : Tables) (userId : String) (f : ListFilter) : Option PagedJobs :=
  if f.inRange then some ⟨pageJobs t' userId f, countJobs t userId f, f.page, f.pageSize⟩
  else none

/-! ### `list_jobs_resource` -/

structure JobResourceItem where
  jobId : Nat
  jobType : JobType
  createdAt : Int
  jobState : JobState
  latestRunStatus : Option RunStatus
  cancelledAt : Option Int
  deriving DecidableEq, Repr

/-- `list_jobs_resource`: its two statements see `t` and `t'`. -/
def listJobsResource (t t' : Tables) (userId : String) (limit : Nat) : List JobResourceItem × Nat :=
  ((((t'.jobs.filter fun j => j.userId == userId).insertionSort
    fun a b => b.createdAt ≤ a.createdAt).take limit).map fun j =>
      ⟨j.jobId, j.jobType, j.createdAt, j.state, latestRunStatus t' j,
        ((t'.events.filter fun e => e.eventType == .cancelled && e.jobId == j.jobId).map
          (·.occurredAt)).max?⟩,
    (t.jobs.filter fun j => j.userId == userId).length)

/-! ### `read_upstream` -/

/-- `UpstreamPayload`, over the values `δ` of JSON texts. -/
inductive UpstreamPayload (δ : Type)
  | ok (data : δ)
  | upstreamError (errorMsg : String)
  | noResult
  | invalidJson (raw : String)
  deriving DecidableEq, Repr

/-- `read_upstream`, where `loads` is `json.loads`. -/
def readUpstream {δ : Type} (loads : String → Option δ) (runId : Nat) (userId : String) :
    Txn (UpstreamPayload δ) := do
  match (← Txn.selectRuns fun r => r.runId == runId && r.userId == userId).head? with
  | none => return .noResult
  | some run =>
    match run.result with
    | none =>
      if run.errorMessage.getD "" ≠ "" then return .upstreamError (run.errorMessage.getD "")
      else return .noResult
    | some result =>
      match loads result with
      | some parsed => return .ok parsed
      | none => return .invalidJson result

end TaskScheduler
